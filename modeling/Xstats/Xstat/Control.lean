/-
**The on/off protocol of xstat.**

No lock protects a node's `ctxs` and `working_buf`; that only one thread uses them rests on
`start_stat` and `stop_stat`. `CtrlInv` is the invariant they keep together, between the flag, the
holder of `ctrl_lock`, the `task` of every node and the threads. It holds in every state the module
reaches, whichever thread creations fail.

* `CtrlInv.step`: every step of the module keeps it.
* `CtrlInv.alive_unique`: a node has at most one living sampler.
* `CtrlInv.onThread_step`: what a node's thread says changes by the thread's own steps only.
* `RunningInv.step`: where all creations succeed, the nodes that the flag says are sampled have one.
-/

import Xstats.Xstat.Module

namespace Xstats.Xstat

open Transition

namespace ModuleState

/-- The `task` of each registered node. -/
def task (s : ModuleState) (nid : Nat) : Option (Option Nat) :=
  (s.xstatNodes nid).map fun node => node.task

@[simp] theorem task_setNode (s : ModuleState) (nid : Nat) (node : Option XstatNode) :
    (s.setNode nid node).task = Function.update s.task nid (node.map fun node => node.task) := by
  funext other
  by_cases same : other = nid
  · subst same
    simp [task, setNode]
  · simp [task, setNode, same]

/-- Replacing a node by one with its task leaves all tasks as they are. -/
theorem task_setNode_of_eq {s : ModuleState} {nid : Nat} {node : Option XstatNode}
    (same : node.map (fun node => node.task) = s.task nid) : (s.setNode nid node).task = s.task := by
  rw [task_setNode, same, Function.update_eq_self]

@[simp] theorem task_setSampler (s : ModuleState) (tid : Nat) (th : Sampler) :
    (s.setSampler tid th).task = s.task := rfl

theorem task_of_node {s : ModuleState} {nid : Nat} {node : XstatNode}
    (there : s.xstatNodes nid = some node) : s.task nid = some node.task := by
  simp [task, there]

theorem task_eq_some {s : ModuleState} {nid : Nat} {t : Option Nat} (named : s.task nid = some t) :
    ∃ node, s.xstatNodes nid = some node ∧ node.task = t :=
  Option.map_eq_some_iff.mp named

end ModuleState

open ModuleState

/-! ### The invariant -/

/-- What holds of the tasks while `ctrl_lock` is free or its holder is at a place. -/
def CtrlPc.Holds (on : Bool) (task : Nat → Option (Option Nat)) : CtrlPc → Prop
  | .free => on = false → ∀ nid tid, task nid ≠ some (some tid)
  | .starting i => on = true ∧ ∀ nid tid, task nid = some (some tid) → nid < i
  | .stopping i => on = false ∧ ∀ nid tid, task nid = some (some tid) → i ≤ nid
  | .waiting i tid =>
    on = false ∧ task i = some (some tid) ∧ ∀ nid tid, task nid = some (some tid) → i ≤ nid
  | .oops => True

/-- The flag, the lock, the tasks and the threads. -/
structure CtrlInv (maxNumnodes : Nat) (s : ModuleState) : Prop where
  bounded : ∀ nid t, s.task nid = some t → nid < maxNumnodes
  unborn : ∀ tid, s.nextTid ≤ tid → s.samplers tid = none
  /-- A living thread is the one its node names. -/
  owned : ∀ tid th, s.samplers tid = some th → th.pc.Alive → s.task th.nid = some (some tid)
  /-- The thread a node names is its own; it is stopped only by the `kthread_stop` under way. -/
  named : ∀ nid tid, s.task nid = some (some tid) → ∃ th, s.samplers tid = some th ∧ th.nid = nid ∧
    (th.shouldStop = true ↔ s.ctrl = .waiting nid tid) ∧ (th.pc.Alive ∨ th.shouldStop = true)
  exiting : ∀ tid th i, s.samplers tid = some th → th.pc = .exitCounters i → th.shouldStop = true
  lock : s.ctrl.Holds s.ctrlOn s.task

theorem ctrlInv_xstatInit (maxNumnodes : Nat) (nodeOnline : Nat → Bool) :
    CtrlInv maxNumnodes (xstatInit maxNumnodes nodeOnline) := by
  have tasks : ∀ nid t, (xstatInit maxNumnodes nodeOnline).task nid = some t →
      nid < maxNumnodes ∧ t = none := by
    intro nid t named
    obtain ⟨node, there, rfl⟩ := task_eq_some named
    obtain ⟨online, step⟩ := Option.ite_none_right_eq_some.mp there
    cases step
    exact ⟨online.1, rfl⟩
  have never : ∀ nid tid, (xstatInit maxNumnodes nodeOnline).task nid ≠ some (some tid) := by
    intro nid tid named
    cases (tasks nid _ named).2
  constructor
  case bounded => exact fun nid t named => (tasks nid t named).1
  case unborn => exact fun _ _ => rfl
  case owned => exact fun _ _ thread => by cases thread
  case named => exact fun nid tid named => absurd named (never nid tid)
  case exiting => exact fun _ _ _ thread => by cases thread
  case lock => exact fun _ => never

/-! ### What a thread's step does to the protocol -/

theorem alive_afterInit (nid tid : Nat) (i : Fin xstatNcnt) :
    (afterInit nid tid i).1.Alive ∧ ∀ k, (afterInit nid tid i).1 ≠ .exitCounters k := by
  unfold afterInit
  split <;> simp [SamplerPc.Alive]

theorem alive_afterRestart (i : Fin xstatNcnt) :
    (afterRestart i).Alive ∧ ∀ k, afterRestart i ≠ .exitCounters k := by
  unfold afterRestart
  split <;> simp [SamplerPc.Alive]

/-- A step is made by a living thread, which keeps its node's task, and which starts to exit, or is
no longer alive, only if it was stopped. -/
structure ThreadMove.Kept (shouldStop : Bool) (pc : SamplerPc) (node : Option XstatNode)
    (after : ThreadStep) : Prop where
  alive : pc.Alive
  task_eq : after.node.map (fun node => node.task) = node.map fun node => node.task
  going : (∀ i, pc ≠ .exitCounters i) → shouldStop = false →
    after.pc.Alive ∧ ∀ i, after.pc ≠ .exitCounters i

theorem ThreadMove.kept {nid tid nextCtx : Nat} {shouldStop : Bool} {node : Option XstatNode}
    {input : Input} {pc : SamplerPc} {after : ThreadStep}
    (move : ThreadMove nid tid shouldStop nextCtx input pc node after) :
    ThreadMove.Kept shouldStop pc node after := by
  have task_initCounter : ∀ (node : XstatNode) (allocated : Nat) (i : Fin xstatNcnt),
      (node.initCounter allocated i).task = node.task := by
    intro node allocated i
    unfold XstatNode.initCounter
    split <;> rfl
  cases move with
  | run | afterRoll | sleep | wake | again =>
    exact ⟨by simp [SamplerPc.Alive], rfl, fun _ _ => by simp [SamplerPc.Alive]⟩
  | cancel stopped =>
    exact ⟨by simp [SamplerPc.Alive], rfl, fun _ going => by simp [stopped] at going⟩
  | initPerf | init =>
    refine ⟨by simp [SamplerPc.Alive], ?_, fun _ _ => alive_afterInit _ _ _⟩
    simp [task_initCounter]
  | restartPerf _ _ done | restart _ done =>
    refine ⟨by simp [SamplerPc.Alive], ?_, fun _ _ => alive_afterRestart _⟩
    simp [(XstatNode.restartCounter_spec done).task_eq]
  | commit =>
    refine ⟨by simp [SamplerPc.Alive], ?_, fun _ _ => by simp [SamplerPc.Alive]⟩
    simp
  | leave check stopped =>
    refine ⟨?_, rfl, fun _ going => by simp [stopped] at going⟩
    rcases check with rfl | rfl <;> simp [SamplerPc.Alive]
  | exitPerf | exit =>
    exact ⟨by simp [SamplerPc.Alive], rfl, fun notExiting => absurd rfl (notExiting _)⟩

/-! ### The step lemma -/

section Steps

variable {maxNumnodes : Nat} {s s' : ModuleState}

/-- A node has at most one living sampler. -/
theorem CtrlInv.alive_unique (inv : CtrlInv maxNumnodes s) {t t' : Nat} {th th' : Sampler}
    (thread : s.samplers t = some th) (other : s.samplers t' = some th') (alive : th.pc.Alive)
    (otherAlive : th'.pc.Alive) (same : th.nid = th'.nid) : t = t' := by
  have first := inv.owned t th thread alive
  have second := inv.owned t' th' other otherAlive
  rw [same, second] at first
  exact (Option.some.inj (Option.some.inj first)).symm

/-- Only the lock's holder and the flag moved. -/
theorem CtrlInv.of_lock (inv : CtrlInv maxNumnodes s) {on : Bool} {ctrl : CtrlPc}
    (neither : ∀ nid tid, s.task nid = some (some tid) →
      (ctrl = .waiting nid tid ↔ s.ctrl = .waiting nid tid))
    (lock : ctrl.Holds on s.task) : CtrlInv maxNumnodes { s with ctrlOn := on, ctrl := ctrl } where
  bounded := inv.bounded
  unborn := inv.unborn
  owned := inv.owned
  named := fun nid tid named => by
    obtain ⟨th, thread, own, stop, alive⟩ := inv.named nid tid named
    exact ⟨th, thread, own, stop.trans (neither nid tid named).symm, alive⟩
  exiting := inv.exiting
  lock := lock

/-- Nodes were replaced by nodes with the same tasks. -/
theorem CtrlInv.of_nodes (inv : CtrlInv maxNumnodes s) {nid : Nat} {node : Option XstatNode}
    (same : node.map (fun node => node.task) = s.task nid) :
    CtrlInv maxNumnodes (s.setNode nid node) where
  bounded := by rw [task_setNode_of_eq same]; exact inv.bounded
  unborn := inv.unborn
  owned := by rw [task_setNode_of_eq same]; exact inv.owned
  named := by rw [task_setNode_of_eq same]; exact inv.named
  exiting := inv.exiting
  lock := by rw [task_setNode_of_eq same]; exact inv.lock

/-- Replacing a thread that exists makes no new one. -/
theorem CtrlInv.unborn_update (inv : CtrlInv maxNumnodes s) {tid : Nat} {th : Sampler}
    (thread : s.samplers tid = some th) (th' : Option Sampler) :
    ∀ t, s.nextTid ≤ t → Function.update s.samplers tid th' t = none := by
  intro t beyond
  have other : t ≠ tid := by
    rintro rfl
    rw [inv.unborn t beyond] at thread
    cases thread
  rw [Function.update_of_ne other]
  exact inv.unborn t beyond

/-- A node whose thread is about to be created has none. -/
theorem CtrlInv.null_of_starting (inv : CtrlInv maxNumnodes s) {i : Nat} {node : XstatNode}
    (here : s.ctrl = .starting i) (there : s.xstatNodes i = some node) : node.task = none := by
  have lock := inv.lock
  rw [here] at lock
  cases task : node.task with
  | none => rfl
  | some tid =>
    have named : s.task i = some (some tid) := by rw [task_of_node there, task]
    exact absurd (lock.2 i tid named) (Nat.lt_irrefl i)

theorem CtrlInv.starts (inv : CtrlInv maxNumnodes s) {i : Nat} {node : XstatNode}
    (here : s.ctrl = .starting i) (there : s.xstatNodes i = some node) :
    CtrlInv maxNumnodes { (s.setNode i (some { node with task := some s.nextTid })).setSampler
      s.nextTid ⟨i, .created, false⟩ with nextTid := s.nextTid + 1, ctrl := .starting (i + 1) } := by
  have lock := inv.lock
  rw [here] at lock
  obtain ⟨on, earlier⟩ := lock
  have tasks : ∀ nid tid, Function.update s.task i (some (some s.nextTid)) nid = some (some tid) →
      (nid = i ∧ tid = s.nextTid) ∨ (nid < i ∧ s.task nid = some (some tid)) := by
    intro nid tid named
    rcases update_eq_iff.mp named with ⟨same, new⟩ | ⟨_, old⟩
    · cases new
      exact .inl ⟨same, rfl⟩
    · exact .inr ⟨earlier nid tid old, old⟩
  have oldThread : ∀ tid th, s.samplers tid = some th → tid ≠ s.nextTid := by
    intro tid th thread same
    rw [inv.unborn tid (by omega)] at thread
    cases thread
  constructor
  case bounded =>
    intro nid t named
    change (s.setNode _ _).task nid = some t at named
    rw [task_setNode] at named
    by_cases same : nid = i
    · subst same
      exact inv.bounded nid _ (task_of_node there)
    · rw [Function.update_of_ne same] at named
      exact inv.bounded nid t named
  case unborn =>
    intro tid later
    show Function.update s.samplers s.nextTid _ tid = none
    rw [Function.update_of_ne (by simp only at later; omega)]
    exact inv.unborn tid (by simp only at later; omega)
  case owned =>
    intro tid th thread alive
    change (s.setNode _ _).task th.nid = _
    rw [task_setNode]
    change Function.update s.samplers s.nextTid _ tid = some th at thread
    by_cases new : tid = s.nextTid
    · subst new
      rw [Function.update_self] at thread
      cases thread
      exact Function.update_self ..
    · rw [Function.update_of_ne new] at thread
      have old := inv.owned tid th thread alive
      rw [Function.update_of_ne (earlier _ _ old).ne]
      exact old
  case named =>
    intro nid tid named
    change (s.setNode _ _).task nid = _ at named
    rw [task_setNode] at named
    rcases tasks nid tid named with ⟨rfl, rfl⟩ | ⟨_, old⟩
    · exact ⟨⟨nid, .created, false⟩, Function.update_self .., rfl, by simp, by simp [SamplerPc.Alive]⟩
    · obtain ⟨th, thread, own, stop, alive⟩ := inv.named nid tid old
      refine ⟨th, ?_, own, ?_, alive⟩
      · exact (Function.update_of_ne (oldThread tid th thread) _ _).trans thread
      · rw [stop, here]
        simp
  case exiting =>
    intro tid th k thread place
    change Function.update s.samplers s.nextTid _ tid = some th at thread
    by_cases new : tid = s.nextTid
    · subst new
      rw [Function.update_self] at thread
      cases thread
      cases place
    · rw [Function.update_of_ne new] at thread
      exact inv.exiting tid th k thread place
  case lock =>
    refine ⟨on, fun nid tid named => ?_⟩
    change (s.setNode _ _).task nid = _ at named
    rw [task_setNode] at named
    rcases tasks nid tid named with ⟨rfl, _⟩ | ⟨below, _⟩
    · exact Nat.lt_succ_self nid
    · exact Nat.lt_succ_of_lt below

theorem CtrlInv.startFails (inv : CtrlInv maxNumnodes s) {i : Nat} {node : XstatNode}
    (here : s.ctrl = .starting i) (there : s.xstatNodes i = some node) :
    CtrlInv maxNumnodes
      { s.setNode i (some { node with task := none }) with ctrl := .starting (i + 1) } := by
  have lock := inv.lock
  rw [here] at lock
  obtain ⟨on, earlier⟩ := lock
  have null := inv.null_of_starting here there
  have same : (some { node with task := none }).map (fun node : XstatNode => node.task) = s.task i := by
    rw [task_of_node there, null]
    rfl
  have kept := inv.of_nodes same
  refine kept.of_lock (fun nid tid _ => ?_) ⟨on, fun nid tid named => ?_⟩
  · show _ ↔ s.ctrl = _
    rw [here]
    simp
  · rw [task_setNode_of_eq same] at named
    exact Nat.lt_succ_of_lt (earlier nid tid named)

theorem CtrlInv.stops (inv : CtrlInv maxNumnodes s) {i tid : Nat} {node : XstatNode} {th : Sampler}
    (here : s.ctrl = .stopping i) (there : s.xstatNodes i = some node)
    (task : node.task = some tid) (thread : s.samplers tid = some th) :
    CtrlInv maxNumnodes
      { s.setSampler tid { th with shouldStop := true } with ctrl := .waiting i tid } := by
  have lock := inv.lock
  rw [here] at lock
  obtain ⟨off, later⟩ := lock
  have mine : s.task i = some (some tid) := by rw [task_of_node there, task]
  have sampler : ∀ t th', Function.update s.samplers tid (some { th with shouldStop := true }) t =
      some th' → (t = tid ∧ th' = { th with shouldStop := true }) ∨
        (t ≠ tid ∧ s.samplers t = some th') := by
    intro t th' found
    rcases update_eq_iff.mp found with ⟨same, new⟩ | old
    · cases new
      exact .inl ⟨same, rfl⟩
    · exact .inr old
  constructor
  case bounded => exact inv.bounded
  case unborn => exact inv.unborn_update thread _
  case owned =>
    intro t th' found alive
    rcases sampler t th' found with ⟨rfl, rfl⟩ | ⟨_, old⟩
    · exact inv.owned t th thread alive
    · exact inv.owned t th' old alive
  case named =>
    intro nid t named
    obtain ⟨th', found, own, stop, alive⟩ := inv.named nid t named
    by_cases same : t = tid
    · subst same
      rw [thread] at found
      cases found
      have home : nid = i := by
        obtain ⟨th'', again, ownAgain, _⟩ := inv.named i t mine
        rw [thread] at again
        cases again
        rw [← own, ownAgain]
      refine ⟨_, Function.update_self .., own, ?_, .inr rfl⟩
      simp [home]
    · refine ⟨th', (Function.update_of_ne same _ _).trans found, own, ?_, alive⟩
      rw [stop, here]
      simp only [reduceCtorEq, CtrlPc.waiting.injEq, false_iff, not_and]
      exact fun _ eq => same eq.symm
  case exiting =>
    intro t th' k found place
    rcases sampler t th' found with ⟨rfl, rfl⟩ | ⟨_, old⟩
    · rfl
    · exact inv.exiting t th' k old place
  case lock => exact ⟨off, mine, later⟩

theorem CtrlInv.joins (inv : CtrlInv maxNumnodes s) {i tid : Nat} {th : Sampler}
    (here : s.ctrl = .waiting i tid) (thread : s.samplers tid = some th)
    (finished : ¬ th.pc.Alive) :
    CtrlInv maxNumnodes { s.setNode i ((s.xstatNodes i).map fun node => { node with task := none })
      with ctrl := .stopping (i + 1) } := by
  have lock := inv.lock
  rw [here] at lock
  obtain ⟨off, mine, later⟩ := lock
  obtain ⟨node, there, _⟩ := task_eq_some mine
  have tasks : (s.setNode i ((s.xstatNodes i).map fun node => { node with task := none })).task =
      Function.update s.task i (some none) := by
    rw [task_setNode, there]
    rfl
  have other : ∀ nid t, Function.update s.task i (some none) nid = some (some t) →
      nid ≠ i ∧ s.task nid = some (some t) := by
    intro nid t named
    rcases update_eq_iff.mp named with ⟨_, new⟩ | old
    · cases new
    · exact old
  constructor
  case bounded =>
    intro nid t named
    change (s.setNode _ _).task nid = _ at named
    rw [tasks] at named
    by_cases same : nid = i
    · subst same
      exact inv.bounded nid _ mine
    · rw [Function.update_of_ne same] at named
      exact inv.bounded nid t named
  case unborn => exact inv.unborn
  case owned =>
    intro t th' found alive
    change s.samplers t = some th' at found
    have old := inv.owned t th' found alive
    have apart : th'.nid ≠ i := by
      intro same
      rw [same, mine] at old
      cases old
      rw [thread] at found
      cases found
      exact finished alive
    show (s.setNode _ _).task _ = _
    rw [tasks, Function.update_of_ne apart]
    exact old
  case named =>
    intro nid t named
    change (s.setNode _ _).task nid = _ at named
    rw [tasks] at named
    obtain ⟨apart, old⟩ := other nid t named
    obtain ⟨th', found, own, stop, alive⟩ := inv.named nid t old
    refine ⟨th', found, own, ?_, alive⟩
    rw [stop, here]
    simp [Ne.symm apart]
  case exiting => exact inv.exiting
  case lock =>
    refine ⟨off, fun nid t named => ?_⟩
    change (s.setNode _ _).task nid = _ at named
    rw [tasks] at named
    obtain ⟨apart, old⟩ := other nid t named
    have := later nid t old
    omega

theorem CtrlInv.sampler (inv : CtrlInv maxNumnodes s) {tid : Nat} {input : Input} {th : Sampler}
    {after : ThreadStep} (thread : s.samplers tid = some th)
    (move : ThreadMove th.nid tid th.shouldStop s.nextCtx input th.pc
      (s.xstatNodes th.nid) after) :
    CtrlInv maxNumnodes { (s.setNode th.nid after.node).setSampler tid { th with pc := after.pc } with
      nextCtx := after.nextCtx, history := s.history ++ after.events } := by
  obtain ⟨alive, same, going⟩ := move.kept
  have tasks : (s.setNode th.nid after.node).task = s.task := task_setNode_of_eq same
  have sampler : ∀ t th', Function.update s.samplers tid (some { th with pc := after.pc }) t =
      some th' → (t = tid ∧ th' = { th with pc := after.pc }) ∨ s.samplers t = some th' := by
    intro t th' found
    rcases update_eq_iff.mp found with ⟨same, new⟩ | ⟨_, old⟩
    · cases new
      exact .inl ⟨same, rfl⟩
    · exact .inr old
  constructor
  case bounded => exact tasks ▸ inv.bounded
  case unborn => exact inv.unborn_update thread _
  case owned =>
    intro t th' found stillAlive
    show (s.setNode _ _).task _ = _
    rw [tasks]
    rcases sampler t th' found with ⟨rfl, rfl⟩ | old
    · exact inv.owned t th thread alive
    · exact inv.owned t th' old stillAlive
  case named =>
    intro nid t named
    change (s.setNode _ _).task nid = _ at named
    rw [tasks] at named
    obtain ⟨th', found, own, stop, living⟩ := inv.named nid t named
    by_cases same : t = tid
    · subst same
      rw [thread] at found
      cases found
      refine ⟨_, Function.update_self .., own, stop, ?_⟩
      by_cases stopped : th.shouldStop = true
      · exact .inr stopped
      · have notExiting : ∀ i, th.pc ≠ .exitCounters i := fun i place =>
          stopped (inv.exiting t th i thread place)
        exact .inl (going notExiting (by simpa using stopped)).1
    · exact ⟨th', (Function.update_of_ne same _ _).trans found, own, stop, living⟩
  case exiting =>
    intro t th' k found place
    rcases sampler t th' found with ⟨rfl, rfl⟩ | old
    · by_cases stopped : th.shouldStop = true
      · exact stopped
      · have notExiting : ∀ i, th.pc ≠ .exitCounters i := fun i place =>
          stopped (inv.exiting t th i thread place)
        exact absurd place ((going notExiting (by simpa using stopped)).2 k)
    · exact inv.exiting t th' k old place
  case lock => exact tasks ▸ inv.lock

/-- **Every step of the module keeps the protocol's invariant.** -/
theorem CtrlInv.step (inv : CtrlInv maxNumnodes s) {a : ModuleAction}
    (taken : s.step maxNumnodes a = some s') : CtrlInv maxNumnodes s' := by
  have lock := inv.lock
  cases move_of_step taken with
  | ignored => exact inv
  | startBegins free off =>
    rw [free] at lock
    refine inv.of_lock (fun nid tid _ => by simp [free]) ⟨rfl, fun nid tid named => ?_⟩
    exact absurd named (lock off nid tid)
  | stopBegins free on =>
    exact inv.of_lock (fun nid tid _ => by simp [free]) ⟨rfl, fun _ _ _ => Nat.zero_le _⟩
  | startSkips here absent =>
    rw [here] at lock
    refine inv.of_lock (fun nid tid _ => by simp [here]) ⟨lock.1, fun nid tid named => ?_⟩
    exact Nat.lt_succ_of_lt (lock.2 nid tid named)
  | starts here there => exact inv.starts here there
  | startFails here there => exact inv.startFails here there
  | startEnds here beyond =>
    rw [here] at lock
    refine inv.of_lock (fun nid tid _ => by simp [here]) fun off => ?_
    rw [lock.1] at off
    cases off
  | stopSkips here absent =>
    rw [here] at lock
    refine inv.of_lock (fun nid tid _ => by simp [here]) ⟨lock.1, fun nid tid named => ?_⟩
    have reached := lock.2 nid tid named
    have apart : nid ≠ _ := fun same => by
      obtain ⟨node, there, _⟩ := task_eq_some named
      rw [same, absent] at there
      cases there
    omega
  | stopFaults here there null =>
    exact inv.of_lock (fun nid tid _ => by simp [here]) trivial
  | stops here there task thread => exact inv.stops here there task thread
  | joins here thread finished => exact inv.joins here thread finished
  | stopEnds here beyond =>
    rw [here] at lock
    refine inv.of_lock (fun nid tid _ => by simp [here]) fun _ nid tid named => ?_
    have reached := lock.2 nid tid named
    have inside := inv.bounded nid _ named
    omega
  | sampler thread move => exact inv.sampler thread move
  | reset there => exact inv.of_nodes (by simp [task_of_node there])
  | stat there =>
    refine inv.of_nodes ?_
    simp [task_of_node there, (XstatNode.sameContexts_showStatAttr _).task_eq]
  | last there => exact inv

/-! ### What a node's thread says -/

/-- The value of `f` at the thread that a node names and at its place, `idle` if it names none. -/
def onThread {β : Type} (samplers : Nat → Option Sampler) (f : Nat → SamplerPc → β) (idle : β) :
    Option (Option Nat) → β
  | some (some tid) =>
    match samplers tid with
    | some th => f tid th.pc
    | none => idle
  | _ => idle

variable {β : Type} {f : Nat → SamplerPc → β} {idle : β}

/-- Only the place of the thread that the node names matters. -/
theorem onThread_congr {samplers samplers' : Nat → Option Sampler} {task : Option (Option Nat)}
    (same : ∀ tid, task = some (some tid) →
      (samplers' tid).map Sampler.pc = (samplers tid).map Sampler.pc) :
    onThread samplers' f idle task = onThread samplers f idle task := by
  unfold onThread
  split
  · have places := same _ rfl
    split <;> split <;> simp_all
  · rfl

/-- Where `f` says the same of a thread before it runs and after it returned as of no thread, only a
thread's own step changes what it says. -/
theorem CtrlInv.onThread_step (inv : CtrlInv maxNumnodes s) (created : ∀ tid, f tid .created = idle)
    (returned : ∀ tid, f tid .returned = idle) (cancelled : ∀ tid, f tid .cancelled = idle)
    {a : ModuleAction} (taken : s.step maxNumnodes a = some s')
    (other : ∀ tid input, a ≠ .sampler tid input) (nid : Nat) :
    onThread s'.samplers f idle (s'.task nid) = onThread s.samplers f idle (s.task nid) := by
  have lock := inv.lock
  cases move_of_step taken with
  | ignored | last _ | startBegins | stopBegins | startSkips | startEnds | stopSkips | stopFaults
  | stopEnds => rfl
  | @starts i node here there =>
    rw [here] at lock
    show onThread (Function.update s.samplers s.nextTid _) f idle ((s.setNode i _).task nid) = _
    rw [task_setNode]
    by_cases same : nid = i
    · subst same
      have before : onThread s.samplers f idle (s.task nid) = idle := by
        unfold onThread
        split
        · exact absurd (lock.2 nid _ ‹_›) (Nat.lt_irrefl nid)
        · rfl
      rw [before]
      simp only [Function.update_self, Option.map_some, onThread, created]
    · rw [Function.update_of_ne same]
      refine onThread_congr fun t named => ?_
      have old : t ≠ s.nextTid := by
        rintro rfl
        obtain ⟨th, found, _⟩ := inv.named nid _ named
        rw [inv.unborn _ (Nat.le_refl _)] at found
        cases found
      rw [Function.update_of_ne old]
  | @startFails i node here there =>
    have null := inv.null_of_starting here there
    show onThread s.samplers f idle ((s.setNode i _).task nid) = _
    rw [task_setNode_of_eq (by rw [task_of_node there, null]; rfl)]
  | @stops i tid node th here there task thread =>
    refine onThread_congr fun t _ => ?_
    by_cases same : t = tid
    · subst same
      show (Function.update s.samplers t _ t).map Sampler.pc = _
      rw [Function.update_self, thread]
      rfl
    · exact congrArg (Option.map Sampler.pc) (Function.update_of_ne same _ _)
  | @joins i tid th here thread finished =>
    rw [here] at lock
    show onThread s.samplers f idle ((s.setNode i _).task nid) = _
    rw [task_setNode]
    by_cases same : nid = i
    · subst same
      obtain ⟨node, there, _⟩ := task_eq_some lock.2.1
      have place : th.pc = .returned ∨ th.pc = .cancelled := by
        by_contra neither
        exact finished (not_or.mp neither)
      have done : f tid th.pc = idle := by
        rcases place with place | place <;> rw [place]
        · exact returned tid
        · exact cancelled tid
      rw [Function.update_self, there, lock.2.1]
      simp only [onThread, thread, done, Option.map_some]
    · rw [Function.update_of_ne same]
  | sampler => exact absurd rfl (other _ _)
  | reset there => rw [task_setNode_of_eq (by simp [task_of_node there])]; rfl
  | stat there =>
    rw [task_setNode_of_eq
      (by simp [task_of_node there, (XstatNode.sameContexts_showStatAttr _).task_eq])]
    rfl

/-- What `f` says of a node whose thread makes a step, before it and after it. -/
theorem CtrlInv.onThread_own (inv : CtrlInv maxNumnodes s) {tid : Nat} {th : Sampler}
    (thread : s.samplers tid = some th) (alive : th.pc.Alive) (pc : SamplerPc) :
    onThread s.samplers f idle (s.task th.nid) = f tid th.pc ∧
      onThread (Function.update s.samplers tid (some { th with pc := pc })) f idle (s.task th.nid) =
        f tid pc := by
  rw [inv.owned tid th thread alive]
  simp only [onThread, thread, Function.update_self, and_self]

/-- The step of a thread changes nothing for another node. -/
theorem CtrlInv.onThread_other (inv : CtrlInv maxNumnodes s) {tid : Nat} {th : Sampler}
    (thread : s.samplers tid = some th) (pc : SamplerPc) {nid : Nat} (apart : nid ≠ th.nid) :
    onThread (Function.update s.samplers tid (some { th with pc := pc })) f idle (s.task nid) =
      onThread s.samplers f idle (s.task nid) := by
  refine onThread_congr fun t named => ?_
  have other : t ≠ tid := by
    rintro rfl
    obtain ⟨th', found, home, _⟩ := inv.named nid t named
    rw [thread] at found
    cases found
    exact apart home.symm
  rw [Function.update_of_ne other]

/-! ### When every thread can be created -/

/-- The nodes that have a task at a place of the lock's holder, if no creation ever failed. -/
def CtrlPc.Running (on : Bool) (nid : Nat) : CtrlPc → Prop
  | .free => on = true
  | .starting i => nid < i
  | .stopping i => i ≤ nid
  | .waiting i _ => i ≤ nid
  | .oops => False

/-- Every node that should have a task has one, and `stop_stat` finds no null pointer. -/
structure RunningInv (s : ModuleState) : Prop where
  running : ∀ nid, s.ctrl.Running s.ctrlOn nid → s.task nid ≠ some none
  noFault : s.ctrl ≠ .oops

theorem runningInv_xstatInit (maxNumnodes : Nat) (nodeOnline : Nat → Bool) :
    RunningInv (xstatInit maxNumnodes nodeOnline) where
  running := fun _ on => by cases on
  noFault := by simp [xstatInit]

/-- Every step keeps it but a failed creation. -/
theorem RunningInv.step (running : RunningInv s) (inv : CtrlInv maxNumnodes s) {a : ModuleAction}
    (creates : a ≠ .startStat false) (taken : s.step maxNumnodes a = some s') : RunningInv s' := by
  have lock := inv.lock
  obtain ⟨tasks, noFault⟩ := running
  cases move_of_step taken with
  | ignored | last _ => exact ⟨tasks, noFault⟩
  | startBegins free off => exact ⟨fun nid below => absurd below (Nat.not_lt_zero nid), by simp⟩
  | stopBegins free on =>
    rw [free, on] at tasks
    exact ⟨fun nid _ => tasks nid rfl, by simp⟩
  | @startSkips i _ here absent =>
    refine ⟨fun nid below => ?_, by simp⟩
    rw [here] at tasks
    rcases Nat.lt_succ_iff_lt_or_eq.mp below with earlier | rfl
    · exact tasks nid earlier
    · simp [task, absent]
  | @starts i node here there =>
    refine ⟨fun nid below => ?_, by simp⟩
    rw [here] at tasks
    show (s.setNode _ _).task nid ≠ _
    rw [task_setNode]
    rcases Nat.lt_succ_iff_lt_or_eq.mp below with earlier | rfl
    · rw [Function.update_of_ne earlier.ne]
      exact tasks nid earlier
    · simp
  | startFails => exact absurd rfl creates
  | @startEnds i _ here beyond =>
    refine ⟨fun nid _ none => ?_, by simp⟩
    rw [here] at tasks
    exact tasks nid (Nat.lt_of_lt_of_le (inv.bounded nid _ none) beyond) none
  | stopSkips here absent =>
    rw [here] at tasks
    exact ⟨fun nid above => tasks nid (Nat.le_of_succ_le above), by simp⟩
  | stopFaults here there null =>
    rw [here] at tasks
    exact absurd (by rw [task_of_node there, null]) (tasks _ (Nat.le_refl _))
  | stops here there task thread =>
    rw [here] at tasks
    exact ⟨tasks, by simp⟩
  | @joins i _ _ here thread finished =>
    refine ⟨fun nid above => ?_, by simp⟩
    rw [here] at tasks
    show (s.setNode _ _).task nid ≠ _
    rw [task_setNode, Function.update_of_ne (by have : i + 1 ≤ nid := above; omega)]
    exact tasks nid (Nat.le_of_succ_le above)
  | stopEnds here beyond =>
    rw [here] at lock
    refine ⟨fun nid on => ?_, by simp⟩
    have : s.ctrlOn = true := on
    rw [lock.1] at this
    cases this
  | sampler thread move =>
    refine ⟨?_, noFault⟩
    show ∀ nid, _ → (s.setNode _ _).task nid ≠ _
    rw [task_setNode_of_eq move.kept.task_eq]
    exact tasks
  | reset there =>
    refine ⟨?_, noFault⟩
    rw [task_setNode_of_eq (by simp [task_of_node there])]
    exact tasks
  | stat there =>
    refine ⟨?_, noFault⟩
    rw [task_setNode_of_eq
      (by simp [task_of_node there, (XstatNode.sameContexts_showStatAttr _).task_eq])]
    exact tasks

/-- With the lock free, a node has a living sampler exactly while the flag is set. -/
theorem RunningInv.alive_iff (running : RunningInv s) (inv : CtrlInv maxNumnodes s)
    (free : s.ctrl = .free) {nid : Nat} {node : XstatNode} (there : s.xstatNodes nid = some node) :
    s.ctrlOn = true ↔ ∃ tid th, s.samplers tid = some th ∧ th.nid = nid ∧ th.pc.Alive := by
  have lock := inv.lock
  rw [free] at lock
  constructor
  · intro on
    have tasks := running.running nid
    rw [free] at tasks
    obtain ⟨tid, named⟩ : ∃ tid, node.task = some tid := by
      cases task : node.task with
      | none => exact absurd (by rw [task_of_node there, task]) (tasks on)
      | some tid => exact ⟨tid, rfl⟩
    obtain ⟨th, thread, own, stop, living⟩ := inv.named nid tid (by rw [task_of_node there, named])
    have notStopped : th.shouldStop ≠ true := by
      rw [ne_eq, stop, free]
      simp
    exact ⟨tid, th, thread, own, living.resolve_right notStopped⟩
  · rintro ⟨tid, th, thread, rfl, alive⟩
    cases on : s.ctrlOn with
    | true => rfl
    | false => exact absurd (inv.owned tid th thread alive) (lock on th.nid tid)

end Steps

end Xstats.Xstat
