/-
**Stopping what was started** (`start_stat` and `stop_stat` of `xstat.c`).

Where a thread cannot be created, `start_stat` leaves the node's task null and goes on, while the flag
says that samplers run. `stop_stat` calls `kthread_stop` for every registered node, without a look at
its task.

* `StopInv.step`: which threads the nodes name, which were created and which were stopped, as long as
  every stop finds a sampler on each node.
* `Doomed.step`: a stop that began with a null task never ends.
* `stop_copes_iff`: the stops of a run undo their starts, and none under way is to fault, if and only if
  each found a sampler on every registered node.
-/

import Xstats.Xstat.Exit

namespace Xstats.Xstat

open Transition ModuleState

/-! ### Removal in sequence -/

/-- A write to the ctrl attribute. -/
def ExitAction.IsWrite : ExitAction → Bool
  | .module a => a.IsWrite
  | _ => false

/-- The module and its removal, where the removal comes after all writes to the ctrl attribute. -/
def ExitState.inSequence (maxNumnodes : Nat) : ExitState → ExitAction → Option ExitState :=
  guarded (fun st a => decide (st.exit = .notCalled) || !a.IsWrite) (ExitState.step maxNumnodes)

/-! ### What a stop has to do -/

/-- What `start_stat` and `stop_stat` ask of the kernel. -/
inductive CtrlEvent
  | startBegins
  | created (tid : Nat)
  | kthreadStop (task : Option Nat)
  deriving DecidableEq, Repr

/-- The event of a step of the module. -/
def moduleEvent (maxNumnodes : Nat) (s : ModuleState) : ModuleAction → Option CtrlEvent
  | .storeCtrlAttr buf =>
    if storeCtrlAttr buf = some .startStat ∧ s.ctrlOn = false then some .startBegins else none
  | .startStat created =>
    match s.ctrl with
    | .starting i =>
      if i < maxNumnodes ∧ (s.xstatNodes i).isSome ∧ created then some (.created s.nextTid) else none
    | _ => none
  | .stopStat =>
    match s.ctrl with
    | .stopping i =>
      if i < maxNumnodes then (s.xstatNodes i).map fun node => .kthreadStop node.task else none
    | _ => none
  | _ => none

/-- The event of a step. `xstat_exit` brings none but by the iterations of its `stop_stat`. -/
def ctrlEvent (maxNumnodes : Nat) : ExitState × ExitAction → Option CtrlEvent
  | (st, .module a) => moduleEvent maxNumnodes st.core a
  | _ => none

/-- The threads created since the last start began, and the arguments of `kthread_stop` since. -/
structure Round where
  created : List Nat
  stopped : List (Option Nat)
  deriving DecidableEq, Repr

namespace Round

def empty : Round := ⟨[], []⟩

def after (r : Round) : Option CtrlEvent → Round
  | none => r
  | some .startBegins => empty
  | some (.created tid) => { r with created := r.created ++ [tid] }
  | some (.kthreadStop task) => { r with stopped := r.stopped ++ [task] }

/-- The round that a run is in. -/
def of (maxNumnodes : Nat) (trace : List (ExitState × ExitAction)) : Round :=
  trace.foldl (fun r x => r.after (ctrlEvent maxNumnodes x)) empty

end Round

/-- The action calls `stop_stat`. -/
def ExitAction.CallsStop : ExitAction → Bool
  | .xstatExit => true
  | .module (.storeCtrlAttr buf) => decide (storeCtrlAttr buf = some .stopStat)
  | _ => false

/-- With this step a call of `stop_stat` is over: its loop ends, or it finds the flag off. -/
def EndsStop (maxNumnodes : Nat) (x : ExitState × ExitAction) : Prop :=
  (x.2 = .module .stopStat ∧ ∃ i, x.1.core.ctrl = .stopping i ∧ maxNumnodes ≤ i) ∨
    (x.2.CallsStop = true ∧ x.1.core.ctrlOn = false)

/-- Of a run: every `kthread_stop` is for a thread that the start before it created, no two are for the
same, and where a stop is over there was one for each, no node has a task, and the flag is off. -/
structure StopCopes (maxNumnodes : Nat) (trace : List (ExitState × ExitAction)) : Prop where
  only : ∀ earlier, earlier <+: trace → (Round.of maxNumnodes earlier).stopped.Nodup ∧
    ∀ t ∈ (Round.of maxNumnodes earlier).stopped,
      ∃ tid ∈ (Round.of maxNumnodes earlier).created, t = some tid
  each : ∀ earlier x, earlier ++ [x] <+: trace → EndsStop maxNumnodes x →
    (Round.of maxNumnodes earlier).stopped.Perm ((Round.of maxNumnodes earlier).created.map some) ∧
      (∀ nid node, x.1.core.xstatNodes nid = some node → node.task = none) ∧ x.1.core.ctrlOn = false

/-- A stop that begins with the flag on finds no registered node whose task is null. -/
def StopFindsSamplers (x : ExitState × ExitAction) : Prop :=
  x.2.CallsStop = true → x.1.core.ctrlOn = true → ∀ nid, x.1.core.task nid ≠ some none

/-- A stop is under way, and before it is a registered node whose task is null. -/
def HeadedForNull (s : ModuleState) : Prop :=
  ∃ nid i, s.task nid = some none ∧ i ≤ nid ∧ (s.ctrl = .stopping i ∨ ∃ tid, s.ctrl = .waiting i tid)

/-! ### The invariant of a run whose stops find samplers -/

/-- The threads that the nodes name are created and, but for the one being stopped, not yet stopped;
every thread created is named or stopped. -/
structure StopInv (s : ModuleState) (r : Round) : Prop where
  fresh : ∀ tid ∈ r.created, tid < s.nextTid
  createdNodup : r.created.Nodup
  stoppedNodup : r.stopped.Nodup
  stopped : ∀ t ∈ r.stopped, ∃ tid ∈ r.created, t = some tid
  named : ∀ nid tid, s.task nid = some (some tid) →
    tid ∈ r.created ∧ (some tid ∈ r.stopped → s.ctrl = .waiting nid tid)
  accounted : ∀ tid ∈ r.created, some tid ∈ r.stopped ∨ ∃ nid, s.task nid = some (some tid)
  waited : ∀ nid tid, s.ctrl = .waiting nid tid → some tid ∈ r.stopped
  ahead : ¬ HeadedForNull s
  noFault : s.ctrl ≠ .oops

section Steps

variable {maxNumnodes : Nat} {s s' : ModuleState} {r : Round}

/-- A step that leaves the tasks alone and makes no call. -/
theorem StopInv.quiet (inv : StopInv s r) (task : s'.task = s.task) (next : s'.nextTid = s.nextTid)
    (ctrl : s'.ctrl = s.ctrl) : StopInv s' r where
  fresh := next ▸ inv.fresh
  createdNodup := inv.createdNodup
  stoppedNodup := inv.stoppedNodup
  stopped := inv.stopped
  named := by
    rw [task, ctrl]
    exact inv.named
  accounted := by
    rw [task]
    exact inv.accounted
  waited := ctrl ▸ inv.waited
  ahead := by
    unfold HeadedForNull
    rw [task, ctrl]
    exact inv.ahead
  noFault := ctrl ▸ inv.noFault

/-- Nobody waits for a thread, and the nodes ahead of a stop under way have samplers. -/
theorem StopInv.move (inv : StopInv s r) (task : s'.task = s.task) (next : s'.nextTid = s.nextTid)
    (idle : ∀ i tid, s.ctrl ≠ .waiting i tid) (idle' : ∀ i tid, s'.ctrl ≠ .waiting i tid)
    (ahead : ¬ HeadedForNull s') (noFault : s'.ctrl ≠ .oops) : StopInv s' r where
  fresh := next ▸ inv.fresh
  createdNodup := inv.createdNodup
  stoppedNodup := inv.stoppedNodup
  stopped := inv.stopped
  named := by
    rw [task]
    exact fun nid tid names => ⟨(inv.named nid tid names).1, fun stopped =>
      absurd ((inv.named nid tid names).2 stopped) (idle nid tid)⟩
  accounted := by
    rw [task]
    exact inv.accounted
  waited := fun nid tid waiting => absurd waiting (idle' nid tid)
  ahead := ahead
  noFault := noFault

/-- The lock's holder is in no stop. -/
theorem not_headed_of_ctrl {ctrl : CtrlPc} (at_ : s.ctrl = ctrl) (noStop : ∀ i, ctrl ≠ .stopping i)
    (noWait : ∀ i tid, ctrl ≠ .waiting i tid) : ¬ HeadedForNull s := by
  rintro ⟨nid, i, _, _, stopping | ⟨tid, waiting⟩⟩
  · exact noStop i (at_ ▸ stopping)
  · exact noWait i tid (at_ ▸ waiting)

/-- What a write to the ctrl attribute does: it begins a start, or a stop, or nothing. -/
theorem writeCtrl_cases {buf : List Char} (taken : s.writeCtrl buf = some s') :
    (storeCtrlAttr buf = some .startStat ∧ s.ctrlOn = false ∧ s.ctrl = .free ∧
      s' = { s with ctrlOn := true, ctrl := .starting 0 }) ∨
    (storeCtrlAttr buf = some .stopStat ∧ s.ctrlOn = true ∧ s.ctrl = .free ∧
      s' = { s with ctrlOn := false, ctrl := .stopping 0 }) ∨
    (¬(storeCtrlAttr buf = some .startStat ∧ s.ctrlOn = false) ∧ s' = s) := by
  unfold writeCtrl at taken
  cases decoded : Xstat.storeCtrlAttr buf with
  | none =>
    rw [decoded] at taken
    cases taken
    exact .inr (.inr ⟨by simp, rfl⟩)
  | some call =>
    simp only [decoded, enterCall] at taken
    obtain ⟨free, rest⟩ := Option.ite_none_right_eq_some.mp taken
    cases call with
    | startStat =>
      cases on : s.ctrlOn with
      | true =>
        simp only [on, if_true] at rest
        cases rest
        exact .inr (.inr ⟨by simp, rfl⟩)
      | false =>
        simp only [on] at rest
        cases rest
        exact .inl ⟨rfl, rfl, free, rfl⟩
    | stopStat =>
      cases on : s.ctrlOn with
      | true =>
        simp only [on, if_true] at rest
        cases rest
        exact .inr (.inl ⟨rfl, rfl, free, rfl⟩)
      | false =>
        simp only [on] at rest
        cases rest
        exact .inr (.inr ⟨by simp, rfl⟩)

/-- A write keeps the invariant if the stop it begins finds samplers. -/
theorem StopInv.write (inv : StopInv s r) (ctrl : CtrlInv maxNumnodes s) {buf : List Char}
    (finds : storeCtrlAttr buf = some .stopStat → s.ctrlOn = true → ∀ nid, s.task nid ≠ some none)
    (taken : s.writeCtrl buf = some s') :
    StopInv s' (r.after (moduleEvent maxNumnodes s (.storeCtrlAttr buf))) := by
  rcases writeCtrl_cases taken with ⟨decoded, off, free, rfl⟩ | ⟨decoded, on, free, rfl⟩ | ⟨other, rfl⟩
  · have event : moduleEvent maxNumnodes s (.storeCtrlAttr buf) = some .startBegins :=
      if_pos ⟨decoded, off⟩
    have lock := ctrl.lock
    rw [free] at lock
    rw [event]
    refine ⟨by simp [Round.after, Round.empty], .nil, .nil, by simp [Round.after, Round.empty],
      fun nid tid names => absurd names (lock off nid tid), by simp [Round.after, Round.empty],
      by simp, not_headed_of_ctrl rfl (by simp) (by simp), by simp⟩
  · have event : moduleEvent maxNumnodes s (.storeCtrlAttr buf) = none :=
      if_neg (by simp [decoded])
    rw [event]
    refine inv.move rfl rfl (by simp [free]) (by simp) ?_ (by simp)
    rintro ⟨nid, _, null, _⟩
    exact finds decoded on nid null
  · have event : moduleEvent maxNumnodes s' (.storeCtrlAttr buf) = none := if_neg other
    rw [event]
    exact inv

/-- An iteration of `start_stat` that creates a thread. -/
theorem StopInv.starts (inv : StopInv s r) (ctrl : CtrlInv maxNumnodes s) {i : Nat} {node : XstatNode}
    (here : s.ctrl = .starting i) (there : s.xstatNodes i = some node) :
    StopInv { (s.setNode i (some { node with task := some s.nextTid })).setSampler s.nextTid
        ⟨i, .created, false⟩ with nextTid := s.nextTid + 1, ctrl := .starting (i + 1) }
      { r with created := r.created ++ [s.nextTid] } := by
  have new : s.nextTid ∉ r.created := fun old => Nat.lt_irrefl _ (inv.fresh _ old)
  have null : s.task i = some none := by rw [task_of_node there, ctrl.null_of_starting here there]
  have names : ∀ nid tid, Function.update s.task i (some (some s.nextTid)) nid = some (some tid) →
      tid = s.nextTid ∨ s.task nid = some (some tid) := by
    intro nid tid named
    rcases update_eq_iff.mp named with ⟨_, new⟩ | ⟨_, old⟩
    · cases new
      exact .inl rfl
    · exact .inr old
  constructor
  case fresh =>
    intro tid member
    show tid < s.nextTid + 1
    rcases List.mem_append.mp member with old | last
    · exact Nat.lt_succ_of_lt (inv.fresh tid old)
    · rw [List.mem_singleton.mp last]
      exact Nat.lt_succ_self _
  case createdNodup => exact List.nodup_append'.mpr ⟨inv.createdNodup, List.nodup_singleton _, by simpa⟩
  case stoppedNodup => exact inv.stoppedNodup
  case stopped =>
    intro t member
    obtain ⟨tid, old, same⟩ := inv.stopped t member
    exact ⟨tid, List.mem_append_left _ old, same⟩
  case named =>
    intro nid tid named
    change (s.setNode _ _).task nid = _ at named
    rw [task_setNode] at named
    rcases names nid tid named with rfl | old
    · refine ⟨by simp, fun stopped => ?_⟩
      obtain ⟨tid, old, same⟩ := inv.stopped _ stopped
      exact absurd (Option.some.inj same ▸ old) new
    · obtain ⟨created, notStopped⟩ := inv.named nid tid old
      refine ⟨List.mem_append_left _ created, fun stopped => ?_⟩
      have waiting := notStopped stopped
      rw [here] at waiting
      cases waiting
  case accounted =>
    intro tid member
    show _ ∨ ∃ nid, (s.setNode _ _).task nid = _
    rw [task_setNode]
    rcases List.mem_append.mp member with old | last
    · rcases inv.accounted tid old with stopped | ⟨nid, named⟩
      · exact .inl stopped
      · have apart : nid ≠ i := by
          rintro rfl
          rw [null] at named
          cases named
        exact .inr ⟨nid, by rw [Function.update_of_ne apart, named]⟩
    · rw [List.mem_singleton.mp last]
      exact .inr ⟨i, by simp⟩
  case waited => exact fun _ _ waiting => by cases waiting
  case ahead => exact not_headed_of_ctrl rfl (by simp) (by simp)
  case noFault => simp

/-- An iteration of `start_stat` whose creation fails. -/
theorem StopInv.startFails (inv : StopInv s r) (ctrl : CtrlInv maxNumnodes s) {i : Nat}
    {node : XstatNode} (here : s.ctrl = .starting i) (there : s.xstatNodes i = some node) :
    StopInv { s.setNode i (some { node with task := none }) with ctrl := .starting (i + 1) } r := by
  have null : s.task i = some none := by rw [task_of_node there, ctrl.null_of_starting here there]
  have tasks : (s.setNode i (some { node with task := none })).task = s.task :=
    task_setNode_of_eq null.symm
  exact inv.move tasks rfl (by simp [here]) (by simp) (not_headed_of_ctrl rfl (by simp) (by simp))
    (by simp)

/-- The call of `kthread_stop` in an iteration of `stop_stat`. -/
theorem StopInv.stops (inv : StopInv s r) (ctrl : CtrlInv maxNumnodes s) {i tid : Nat} {th : Sampler}
    (here : s.ctrl = .stopping i) (task : s.task i = some (some tid)) :
    StopInv { s.setSampler tid { th with shouldStop := true } with ctrl := .waiting i tid }
      { r with stopped := r.stopped ++ [some tid] } := by
  have new : some tid ∉ r.stopped := fun old => by
    have waiting := (inv.named i tid task).2 old
    rw [here] at waiting
    cases waiting
  constructor
  case fresh => exact inv.fresh
  case createdNodup => exact inv.createdNodup
  case stoppedNodup => exact List.nodup_append'.mpr ⟨inv.stoppedNodup, List.nodup_singleton _, by simpa⟩
  case stopped =>
    intro t member
    rcases List.mem_append.mp member with old | last
    · exact inv.stopped t old
    · exact ⟨tid, (inv.named i tid task).1, List.mem_singleton.mp last⟩
  case named =>
    intro nid other named
    refine ⟨(inv.named nid other named).1, fun stopped => ?_⟩
    rcases List.mem_append.mp stopped with old | last
    · have waiting := (inv.named nid other named).2 old
      rw [here] at waiting
      cases waiting
    · -- Two nodes never name the same thread.
      cases List.mem_singleton.mp last
      obtain ⟨first, thread, own, _⟩ := ctrl.named nid tid named
      obtain ⟨second, thread', own', _⟩ := ctrl.named i tid task
      rw [thread] at thread'
      cases thread'
      rw [← own, own']
  case accounted =>
    intro other member
    exact (inv.accounted other member).imp_left (List.mem_append_left _)
  case waited =>
    intro nid other waiting
    cases waiting
    simp
  case ahead =>
    rintro ⟨nid, k, null, below, stopping | ⟨other, waiting⟩⟩
    · cases stopping
    · cases waiting
      exact inv.ahead ⟨nid, i, null, below, .inl here⟩
  case noFault => simp

/-- The end of `kthread_stop`, where the node's task becomes null. -/
theorem StopInv.joins (inv : StopInv s r) (ctrl : CtrlInv maxNumnodes s) {i tid : Nat}
    (here : s.ctrl = .waiting i tid) :
    StopInv { s.setNode i ((s.xstatNodes i).map fun node => { node with task := none }) with
      ctrl := .stopping (i + 1) } r := by
  have lock := ctrl.lock
  rw [here] at lock
  obtain ⟨_, task, _⟩ := lock
  obtain ⟨node, there, _⟩ := task_eq_some task
  have tasks : (s.setNode i ((s.xstatNodes i).map fun node => { node with task := none })).task =
      Function.update s.task i (some none) := by rw [task_setNode, there]; rfl
  have left : ∀ nid other, Function.update s.task i (some none) nid = some (some other) →
      nid ≠ i ∧ s.task nid = some (some other) := by
    intro nid other named
    rcases update_eq_iff.mp named with ⟨_, new⟩ | old
    · cases new
    · exact old
  constructor
  case fresh => exact inv.fresh
  case createdNodup => exact inv.createdNodup
  case stoppedNodup => exact inv.stoppedNodup
  case stopped => exact inv.stopped
  case named =>
    intro nid other named
    change (s.setNode _ _).task nid = _ at named
    rw [tasks] at named
    obtain ⟨apart, old⟩ := left nid other named
    refine ⟨(inv.named nid other old).1, fun stopped => ?_⟩
    have waiting := (inv.named nid other old).2 stopped
    rw [here] at waiting
    cases waiting
    exact absurd rfl apart
  case accounted =>
    intro other member
    show _ ∨ ∃ nid, (s.setNode _ _).task nid = _
    rw [tasks]
    rcases inv.accounted other member with stopped | ⟨nid, named⟩
    · exact .inl stopped
    · by_cases same : nid = i
      · subst same
        rw [task] at named
        cases named
        exact .inl (inv.waited nid tid here)
      · exact .inr ⟨nid, by rw [Function.update_of_ne same, named]⟩
  case waited => exact fun _ _ waiting => by cases waiting
  case ahead =>
    rintro ⟨nid, k, null, below, stopping | ⟨other, waiting⟩⟩
    · cases stopping
      change (s.setNode _ _).task nid = _ at null
      rw [tasks, Function.update_of_ne (by omega)] at null
      exact inv.ahead ⟨nid, i, null, by omega, .inr ⟨tid, here⟩⟩
    · cases waiting
  case noFault => simp

/-- **One step.** -/
theorem StopInv.step (inv : StopInv s r) (ctrl : CtrlInv maxNumnodes s) {a : ModuleAction}
    (finds : ∀ buf, a = .storeCtrlAttr buf → storeCtrlAttr buf = some .stopStat → s.ctrlOn = true →
      ∀ nid, s.task nid ≠ some none)
    (taken : s.step maxNumnodes a = some s') :
    StopInv s' (r.after (moduleEvent maxNumnodes s a)) := by
  have inside : ∀ {i node}, s.xstatNodes i = some node → i < maxNumnodes := fun there =>
    ctrl.bounded _ _ (task_of_node there)
  by_cases write : ∃ buf, a = .storeCtrlAttr buf
  · obtain ⟨buf, rfl⟩ := write
    exact inv.write ctrl (finds buf rfl) taken
  · cases move_of_step taken with
    | ignored | startBegins | stopBegins => exact absurd ⟨_, rfl⟩ write
    | @startSkips i created here absent =>
      rw [show moduleEvent maxNumnodes s (.startStat created) = none by
        simp [moduleEvent, here, absent]]
      exact inv.move rfl rfl (by simp [here]) (by simp) (not_headed_of_ctrl rfl (by simp) (by simp))
        (by simp)
    | @starts i node here there =>
      rw [show moduleEvent maxNumnodes s (.startStat true) = some (.created s.nextTid) by
        simp [moduleEvent, here, there, inside there]]
      exact inv.starts ctrl here there
    | @startFails i node here there =>
      rw [show moduleEvent maxNumnodes s (.startStat false) = none by simp [moduleEvent, here]]
      exact inv.startFails ctrl here there
    | @startEnds i created here beyond =>
      rw [show moduleEvent maxNumnodes s (.startStat created) = none by
        simp [moduleEvent, here, Nat.not_lt.mpr beyond]]
      exact inv.move rfl rfl (by simp [here]) (by simp) (not_headed_of_ctrl rfl (by simp) (by simp))
        (by simp)
    | @stopSkips i here absent =>
      rw [show moduleEvent maxNumnodes s .stopStat = none by simp [moduleEvent, here, absent]]
      refine inv.move rfl rfl (by simp [here]) (by simp) ?_ (by simp)
      rintro ⟨nid, k, null, below, stopping | ⟨_, waiting⟩⟩
      · cases stopping
        exact inv.ahead ⟨nid, i, null, by omega, .inl here⟩
      · cases waiting
    | @stopFaults i node here there null =>
      have named : s.task i = some none := by rw [task_of_node there, null]
      exact absurd ⟨i, i, named, le_rfl, .inl here⟩ inv.ahead
    | @stops i tid node th here there task thread =>
      rw [show moduleEvent maxNumnodes s .stopStat = some (.kthreadStop (some tid)) by
        simp [moduleEvent, here, there, inside there, task]]
      exact inv.stops ctrl here (by rw [task_of_node there, task])
    | @joins i tid th here thread finished =>
      rw [show moduleEvent maxNumnodes s .stopStat = none by simp [moduleEvent, here]]
      exact inv.joins ctrl here
    | @stopEnds i here beyond =>
      rw [show moduleEvent maxNumnodes s .stopStat = none by
        simp [moduleEvent, here, Nat.not_lt.mpr beyond]]
      exact inv.move rfl rfl (by simp [here]) (by simp) (not_headed_of_ctrl rfl (by simp) (by simp))
        (by simp)
    | sampler thread move => exact inv.quiet (task_setNode_of_eq move.kept.task_eq) rfl rfl
    | reset there => exact inv.quiet (task_setNode_of_eq (by simp [task_of_node there])) rfl rfl
    | stat there =>
      refine inv.quiet (task_setNode_of_eq ?_) rfl rfl
      simp [task_of_node there, (XstatNode.sameContexts_showStatAttr _).task_eq]
    | last there => exact inv

/-- A call of `stop_stat` that finds the flag off, or a loop that has passed all nodes: the threads
created are those stopped. -/
theorem StopInv.perm (inv : StopInv s r) (gone : ∀ nid tid, s.task nid ≠ some (some tid)) :
    r.stopped.Perm (r.created.map some) := by
  have distinct : (r.created.map some).Nodup :=
    inv.createdNodup.map (Option.some_injective _)
  refine (List.perm_ext_iff_of_nodup inv.stoppedNodup distinct).mpr fun t => ?_
  constructor
  · intro member
    obtain ⟨tid, created, rfl⟩ := inv.stopped t member
    exact List.mem_map_of_mem created
  · intro member
    obtain ⟨tid, created, rfl⟩ := List.mem_map.mp member
    exact (inv.accounted tid created).resolve_right fun ⟨nid, named⟩ => gone nid tid named

/-! ### A stop that began with a null task -/

/-- The stop under way will fault, or has. -/
def Doomed (s : ModuleState) (r : Round) : Prop :=
  HeadedForNull s ∨ (s.ctrl = .oops ∧ none ∈ r.stopped)

theorem Doomed.ctrl_ne (doomed : Doomed s r) : s.ctrl ≠ .free ∧ ∀ i, s.ctrl ≠ .starting i := by
  rcases doomed with ⟨_, _, _, _, place | ⟨_, place⟩⟩ | ⟨place, _⟩
  all_goals
    rw [place]
    simp

theorem Doomed.quiet (doomed : Doomed s r) (task : s'.task = s.task) (ctrl : s'.ctrl = s.ctrl) :
    Doomed s' r := by
  unfold Doomed HeadedForNull
  rw [task, ctrl]
  exact doomed

/-- Where the loop of `stop_stat` stands, the null task is ahead. -/
theorem Doomed.ahead_of_stopping (doomed : Doomed s r) {i : Nat} (here : s.ctrl = .stopping i) :
    ∃ nid, s.task nid = some none ∧ i ≤ nid := by
  rcases doomed with ⟨nid, k, null, below, place | ⟨_, place⟩⟩ | ⟨place, _⟩
  · rw [here] at place
    cases place
    exact ⟨nid, null, below⟩
  · rw [here] at place
    cases place
  · rw [here] at place
    cases place

/-- **Such a stop never ends.** -/
theorem Doomed.step (doomed : Doomed s r) (ctrl : CtrlInv maxNumnodes s) {a : ModuleAction}
    (taken : s.step maxNumnodes a = some s') :
    Doomed s' (r.after (moduleEvent maxNumnodes s a)) := by
  obtain ⟨notFree, notStarting⟩ := doomed.ctrl_ne
  by_cases write : ∃ buf, a = .storeCtrlAttr buf
  · obtain ⟨buf, rfl⟩ := write
    rcases writeCtrl_cases taken with ⟨_, _, free, _⟩ | ⟨_, _, free, _⟩ | ⟨other, same⟩
    · exact absurd free notFree
    · exact absurd free notFree
    · rw [show moduleEvent maxNumnodes s (.storeCtrlAttr buf) = none from if_neg other, same]
      exact doomed
  · cases move_of_step taken with
    | ignored | startBegins | stopBegins => exact absurd ⟨_, rfl⟩ write
    | startSkips here | starts here | startFails here | startEnds here =>
      exact absurd here (notStarting _)
    | @stopSkips i here absent =>
      rw [show moduleEvent maxNumnodes s .stopStat = none by simp [moduleEvent, here, absent]]
      obtain ⟨nid, null, below⟩ := doomed.ahead_of_stopping here
      have apart : nid ≠ i := by
        rintro rfl
        simp [task, absent] at null
      exact .inl ⟨nid, i + 1, null, by omega, .inl rfl⟩
    | @stopFaults i node here there null =>
      have inside := ctrl.bounded _ _ (task_of_node there)
      rw [show moduleEvent maxNumnodes s .stopStat = some (.kthreadStop none) by
        simp [moduleEvent, here, there, inside, null]]
      exact .inr ⟨rfl, by simp [Round.after]⟩
    | @stops i tid node th here there task thread =>
      obtain ⟨nid, null, below⟩ := doomed.ahead_of_stopping here
      have inside := ctrl.bounded _ _ (task_of_node there)
      rw [show moduleEvent maxNumnodes s .stopStat = some (.kthreadStop (some tid)) by
        simp [moduleEvent, here, there, inside, task]]
      exact .inl ⟨nid, i, null, below, .inr ⟨tid, rfl⟩⟩
    | @joins i tid th here thread finished =>
      rw [show moduleEvent maxNumnodes s .stopStat = none by simp [moduleEvent, here]]
      have lock := ctrl.lock
      rw [here] at lock
      rcases doomed with ⟨nid, k, null, below, place | ⟨_, place⟩⟩ | ⟨place, _⟩
      · rw [here] at place
        cases place
      · rw [here] at place
        cases place
        have apart : nid ≠ i := by
          rintro rfl
          rw [lock.2.1] at null
          cases null
        refine .inl ⟨nid, i + 1, ?_, by omega, .inl rfl⟩
        show (s.setNode i _).task nid = _
        rw [task_setNode, Function.update_of_ne apart]
        exact null
      · rw [here] at place
        cases place
    | @stopEnds i here beyond =>
      obtain ⟨nid, null, below⟩ := doomed.ahead_of_stopping here
      have inside := ctrl.bounded nid _ null
      omega
    | sampler thread move => exact doomed.quiet (task_setNode_of_eq move.kept.task_eq) rfl
    | reset there => exact doomed.quiet (task_setNode_of_eq (by simp [task_of_node there])) rfl
    | stat there =>
      refine doomed.quiet (task_setNode_of_eq ?_) rfl
      simp [task_of_node there, (XstatNode.sameContexts_showStatAttr _).task_eq]
    | last there => exact doomed

end Steps

/-! ### Runs -/

section Runs

variable {maxNumnodes : Nat}

/-- In sequence, the flag is off once the removal has begun, and the lock free once its stop is over. -/
structure SequenceInv (maxNumnodes : Nat) (st : ExitState) : Prop where
  ctrl : CtrlInv maxNumnodes st.core
  off : st.exit ≠ .notCalled → st.core.ctrlOn = false
  free : (∃ i, st.exit = .unregistering i) ∨ st.exit = .returned → st.core.ctrl = .free

/-- Nothing but a write turns the flag or takes the free lock. -/
theorem lock_of_step {s s' : ModuleState} {a : ModuleAction} (other : a.IsWrite = false)
    (taken : s.step maxNumnodes a = some s') :
    s'.ctrlOn = s.ctrlOn ∧ (s.ctrl = .free → s'.ctrl = .free) := by
  cases move_of_step taken with
  | ignored | startBegins | stopBegins => cases other
  | startEnds | stopEnds => exact ⟨rfl, fun _ => rfl⟩
  | startSkips here | starts here | startFails here | stopSkips here | stopFaults here | stops here
  | joins here =>
    refine ⟨rfl, fun free => ?_⟩
    rw [free] at here
    cases here
  | sampler | reset | stat | last => exact ⟨rfl, id⟩

/-- The call of `stop_stat` in `xstat_exit`. -/
theorem enterCall_stopStat (maxNumnodes : Nat) {s s' : ModuleState}
    (entered : s.enterCall .stopStat = some s') :
    s.ctrl = .free ∧ s'.ctrlOn = false ∧ s.step maxNumnodes (.storeCtrlAttr "off".toList) = some s' := by
  obtain ⟨free, rest⟩ := Option.ite_none_right_eq_some.mp entered
  refine ⟨free, ?_, entered⟩
  cases on : s.ctrlOn <;> simp only [on] at rest <;> cases rest
  · exact on
  · rfl

/-- With the lock free and the flag off no node names a thread. -/
theorem CtrlInv.gone {s : ModuleState} (ctrl : CtrlInv maxNumnodes s) (free : s.ctrl = .free)
    (off : s.ctrlOn = false) : ∀ nid tid, s.task nid ≠ some (some tid) := by
  have lock := ctrl.lock
  rw [free] at lock
  exact lock off

theorem SequenceInv.step {st st' : ExitState} (inv : SequenceInv maxNumnodes st) {a : ExitAction}
    (taken : ExitState.inSequence maxNumnodes st a = some st') : SequenceInv maxNumnodes st' := by
  obtain ⟨check, taken⟩ := Option.ite_none_right_eq_some.mp taken
  cases exitMove_of_step taken with
  | @module a core stepped =>
    have other : st.exit ≠ .notCalled → a.IsWrite = false := by
      intro called
      simpa [called, ExitAction.IsWrite] using check
    refine ⟨inv.ctrl.step stepped, fun called => ?_, fun ended => ?_⟩
    · have before : st.exit ≠ .notCalled := by
        intro notCalled
        exact called (by simp [ExitState.exitAfter, notCalled])
      rw [(lock_of_step (other before) stepped).1]
      exact inv.off before
    · by_cases ends : st.exit = .stopping ∧ core.ctrl = .free
      · exact ends.2
      · have same : ExitState.exitAfter st.exit core = st.exit := if_neg ends
        simp only [same] at ended
        have before : st.exit ≠ .notCalled := by
          rcases ended with ⟨i, is⟩ | is <;> simp [is]
        exact (lock_of_step (other before) stepped).2 (inv.free ended)
  | @xstatExit core entered =>
    obtain ⟨_, off, stepped⟩ := enterCall_stopStat maxNumnodes entered
    refine ⟨inv.ctrl.step stepped, fun _ => off, fun ended => ?_⟩
    by_cases ends : core.ctrl = .free
    · exact ends
    · simp [ExitState.exitAfter, ends] at ended
  | skips here =>
    exact ⟨inv.ctrl, fun _ => inv.off (by simp [here]), fun _ => inv.free (.inl ⟨_, here⟩)⟩
  | @frees i node here =>
    have off := inv.off (by simp [here])
    have free := inv.free (.inl ⟨i, here⟩)
    exact ⟨inv.ctrl.unregister (inv.ctrl.gone free off i), fun _ => off, fun _ => free⟩
  | classUnregister here =>
    exact ⟨inv.ctrl, fun _ => inv.off (by simp [here]), fun _ => inv.free (.inl ⟨_, here⟩)⟩

/-- A node is freed: nobody is named any more, and those created are stopped. -/
theorem StopInv.frees {s : ModuleState} {r : Round} (inv : StopInv s r) (free : s.ctrl = .free)
    (gone : ∀ nid tid, s.task nid ≠ some (some tid)) (i : Nat) :
    StopInv (ExitState.unregisterXstatNode s i) r := by
  have goneAfter : ∀ nid tid, (s.setNode i none).task nid ≠ some (some tid) := by
    intro nid tid named
    rw [task_setNode] at named
    rcases update_eq_iff.mp named with ⟨_, new⟩ | ⟨_, old⟩
    · cases new
    · exact gone nid tid old
  have unnamed : ∀ tid, ¬ ∃ nid, s.task nid = some (some tid) :=
    fun tid => not_exists.mpr fun nid => gone nid tid
  exact ⟨inv.fresh, inv.createdNodup, inv.stoppedNodup, inv.stopped,
    fun nid tid named => absurd named (goneAfter nid tid),
    fun tid created => .inl ((inv.accounted tid created).resolve_right (unnamed tid)),
    inv.waited, not_headed_of_ctrl free (by simp) (by simp), inv.noFault⟩

/-- **One step of the module or its removal**, where the stop it begins finds samplers. -/
theorem StopInv.inSequence {st st' : ExitState} {r : Round} (inv : StopInv st.core r)
    (seq : SequenceInv maxNumnodes st) {a : ExitAction} (finds : StopFindsSamplers (st, a))
    (taken : ExitState.inSequence maxNumnodes st a = some st') :
    StopInv st'.core (r.after (ctrlEvent maxNumnodes (st, a))) := by
  obtain ⟨_, taken⟩ := Option.ite_none_right_eq_some.mp taken
  cases exitMove_of_step taken with
  | module stepped =>
    refine inv.step seq.ctrl (fun buf write decoded => ?_) stepped
    subst write
    exact finds (by simpa [ExitAction.CallsStop] using decoded)
  | xstatExit entered =>
    obtain ⟨_, _, stepped⟩ := enterCall_stopStat maxNumnodes entered
    exact inv.step seq.ctrl (fun _ _ _ => finds rfl) stepped
  | @frees i node here =>
    have free := seq.free (.inl ⟨i, here⟩)
    exact inv.frees free (seq.ctrl.gone free (seq.off (by simp [here]))) i
  | skips | classUnregister => exact inv

/-- An action that calls `stop_stat` enters it. -/
theorem enters_of_callsStop {st st' : ExitState} {a : ExitAction} (calls : a.CallsStop = true)
    (taken : st.step maxNumnodes a = some st') : st.core.enterCall .stopStat = some st'.core := by
  cases exitMove_of_step taken with
  | @module a core stepped =>
    cases a with
    | storeCtrlAttr buf =>
      have decoded : storeCtrlAttr buf = some .stopStat := by simpa [ExitAction.CallsStop] using calls
      change st.core.writeCtrl buf = some core at stepped
      rwa [writeCtrl, decoded] at stepped
    | _ => cases calls
  | xstatExit entered => exact entered
  | skips | frees | classUnregister => cases calls

/-- A stop begins with a null task before it. -/
theorem doomed_of_begins {s s' : ModuleState} {r : Round} (on : s.ctrlOn = true) {nid : Nat}
    (null : s.task nid = some none) (entered : s.enterCall .stopStat = some s') : Doomed s' r := by
  obtain ⟨_, rest⟩ := Option.ite_none_right_eq_some.mp entered
  simp only [on, if_true] at rest
  cases rest
  exact .inl ⟨nid, 0, null, Nat.zero_le _, .inl rfl⟩

/-- **One step once a stop has begun with a null task**, or which begins such a stop. -/
theorem Doomed.inSequence {st st' : ExitState} {r : Round} (seq : SequenceInv maxNumnodes st)
    {a : ExitAction} (taken : ExitState.inSequence maxNumnodes st a = some st')
    (doomed : Doomed st.core r ∨ ¬ StopFindsSamplers (st, a)) :
    Doomed st'.core (r.after (ctrlEvent maxNumnodes (st, a))) := by
  obtain ⟨_, taken⟩ := Option.ite_none_right_eq_some.mp taken
  rcases doomed with doomed | null
  · have notFree := doomed.ctrl_ne.1
    cases exitMove_of_step taken with
    | module stepped => exact doomed.step seq.ctrl stepped
    | xstatExit entered => exact absurd (enterCall_stopStat maxNumnodes entered).1 notFree
    | skips here | frees here | classUnregister here =>
      exact absurd (seq.free (.inl ⟨_, here⟩)) notFree
  · simp only [StopFindsSamplers, not_forall, not_not] at null
    obtain ⟨calls, on, nid, null⟩ := null
    exact doomed_of_begins on null (enters_of_callsStop calls taken)

theorem Round.of_concat (trace : List (ExitState × ExitAction)) (x : ExitState × ExitAction) :
    Round.of maxNumnodes (trace ++ [x]) =
      (Round.of maxNumnodes trace).after (ctrlEvent maxNumnodes x) := by
  simp [Round.of]

variable {nodeOnline : Nat → Bool} {trace : List (ExitState × ExitAction)} {st : ExitState}

theorem sequenceInv_start : SequenceInv maxNumnodes (ExitState.start maxNumnodes nodeOnline) :=
  ⟨ctrlInv_xstatInit maxNumnodes nodeOnline, fun called => absurd rfl called, fun ended => by
    rcases ended with ⟨_, is⟩ | is <;> cases is⟩

theorem stopInv_start : StopInv (ExitState.start maxNumnodes nodeOnline).core Round.empty := by
  have gone := (ctrlInv_xstatInit maxNumnodes nodeOnline).gone rfl rfl
  exact ⟨by simp [Round.empty], .nil, .nil, by simp [Round.empty],
    fun nid tid named => absurd named (gone nid tid), by simp [Round.empty],
    fun _ _ waiting => (by cases waiting),
    not_headed_of_ctrl (show _ = CtrlPc.free from rfl) (by simp) (by simp),
    by simp [ExitState.start, xstatInit]⟩

/-- Runs whose stops find samplers. -/
theorem stopInv_of_run
    (run : Run (ExitState.inSequence maxNumnodes) (ExitState.start maxNumnodes nodeOnline) trace st)
    (finds : ∀ x ∈ trace, StopFindsSamplers x) :
    SequenceInv maxNumnodes st ∧ StopInv st.core (Round.of maxNumnodes trace) :=
  run.ghost (P := fun st r => SequenceInv maxNumnodes st ∧ StopInv st.core r)
    (fun r x => r.after (ctrlEvent maxNumnodes x)) (fun st a => StopFindsSamplers (st, a))
    ⟨sequenceInv_start, stopInv_start⟩
    (fun _ _ _ _ before finds taken =>
      ⟨before.1.step taken, before.2.inSequence before.1 finds taken⟩) finds

/-- Runs in which a stop found a null task. -/
theorem doomed_of_run
    (run : Run (ExitState.inSequence maxNumnodes) (ExitState.start maxNumnodes nodeOnline) trace st) :
    SequenceInv maxNumnodes st ∧
      ((∃ x ∈ trace, ¬ StopFindsSamplers x) → Doomed st.core (Round.of maxNumnodes trace)) := by
  induction run with
  | nil => exact ⟨sequenceInv_start, fun ⟨_, member, _⟩ => by cases member⟩
  | @snoc trace s s' a _ taken ih =>
    obtain ⟨seq, doomed⟩ := ih
    refine ⟨seq.step taken, fun ⟨x, member, null⟩ => ?_⟩
    rw [Round.of_concat]
    refine Doomed.inSequence seq taken ?_
    rcases List.mem_append.mp member with earlier | last
    · exact .inl (doomed ⟨x, earlier, null⟩)
    · rw [List.mem_singleton] at last
      exact .inr (last ▸ null)

/-- What a step that ends a stop finds. -/
theorem EndsStop.found {x : ExitState × ExitAction} (ends : EndsStop maxNumnodes x)
    (seq : SequenceInv maxNumnodes x.1) {st' : ExitState}
    (taken : ExitState.inSequence maxNumnodes x.1 x.2 = some st') :
    x.1.core.ctrlOn = false ∧ ∀ nid tid, x.1.core.task nid ≠ some (some tid) := by
  rcases ends with ⟨_, i, here, beyond⟩ | ⟨calls, off⟩
  · have lock := seq.ctrl.lock
    rw [here] at lock
    refine ⟨lock.1, fun nid tid named => ?_⟩
    have reached := lock.2 nid tid named
    have inside := seq.ctrl.bounded nid _ named
    omega
  · obtain ⟨_, taken⟩ := Option.ite_none_right_eq_some.mp taken
    have free := (enterCall_stopStat maxNumnodes (enters_of_callsStop calls taken)).1
    exact ⟨off, seq.ctrl.gone free off⟩

/-- **Stops undo their starts exactly where each finds its samplers.** For every set of registered
nodes, every sequence of writes to the ctrl attribute and removal, whichever creations fail and however
the steps of the samplers fall: `kthread_stop` is called once for each thread that the start created and
for nothing else, and a stop that is over leaves no task and the flag off, and no stop under way is to
follow a null task, if and only if no stop that found the flag on began while the task of a registered
node was null. -/
theorem stop_copes_iff
    (run : Run (ExitState.inSequence maxNumnodes) (ExitState.start maxNumnodes nodeOnline) trace st) :
    (StopCopes maxNumnodes trace ∧ ¬ HeadedForNull st.core) ↔ ∀ x ∈ trace, StopFindsSamplers x := by
  constructor
  · rintro ⟨copes, ahead⟩ x member
    by_contra null
    rcases (doomed_of_run run).2 ⟨x, member, null⟩ with headed | ⟨_, faulted⟩
    · exact ahead headed
    · obtain ⟨tid, _, same⟩ := (copes.only trace List.prefix_rfl).2 _ faulted
      cases same
  · intro finds
    refine ⟨⟨fun earlier isPrefix => ?_, fun earlier x isPrefix ends => ?_⟩,
      (stopInv_of_run run finds).2.ahead⟩
    · obtain ⟨s', before⟩ := run.of_prefix isPrefix
      obtain ⟨_, inv⟩ := stopInv_of_run before fun x member => finds x (isPrefix.subset member)
      exact ⟨inv.stoppedNodup, inv.stopped⟩
    · have among : x ∈ trace := isPrefix.subset (by simp)
      obtain ⟨later, rfl⟩ := isPrefix
      rw [List.append_assoc] at run finds
      have before : Run _ _ earlier x.1 := run.before
      obtain ⟨seq, inv⟩ := stopInv_of_run before fun y member => finds y (by simp [member])
      obtain ⟨st', taken⟩ := run.taken x (by simp)
      obtain ⟨off, gone⟩ := ends.found seq taken
      refine ⟨inv.perm gone, fun nid node there => ?_, off⟩
      cases task : node.task with
      | none => rfl
      | some tid => exact absurd (by rw [task_of_node there, task]) (gone nid tid)

end Runs

/-- The same for one node, by a look at that node. -/
theorem finds_of_one {nodeOnline : Nat → Bool} {trace : List (ExitState × ExitAction)} {st : ExitState}
    (run : Run (ExitState.inSequence 1) (ExitState.start 1 nodeOnline) trace st)
    (looked : trace.all fun x =>
      !x.2.CallsStop || !x.1.core.ctrlOn || x.1.core.task 0 != some none) :
    ∀ x ∈ trace, StopFindsSamplers x := by
  intro x member calls on nid null
  obtain ⟨earlier, later, rfl⟩ := List.append_of_mem member
  have inside := (doomed_of_run run.before).1.ctrl.bounded nid _ null
  obtain rfl : nid = 0 := Nat.lt_one_iff.mp inside
  have here := List.all_eq_true.mp looked x member
  simp [calls, on, null] at here

/-- A node is sampled and switched off, its sampler ends, and the module is removed. -/
def removal : List ExitAction :=
  List.flatten [(switchedOn 20).map .module,
    [.module (.storeCtrlAttr "off".toList), .module .stopStat], (samplerSteps 32).map .module,
    [.module .stopStat, .module .stopStat, .xstatExit, .unregisterXstatNode, .classUnregister]]

/-- A node is sampled, switched off, and the module removed: one thread created, and that one stopped. -/
theorem stop_copes_switched_off :
    ∃ trace st, Run (ExitState.inSequence 1) (ExitState.start 1 fun _ => true) trace st ∧
      Round.of 1 trace = ⟨[0], [some 0]⟩ ∧ st.exit = .returned ∧ StopCopes 1 trace := by
  have done : (exec (ExitState.inSequence 1) (ExitState.start 1 fun _ => true)
      removal).any fun st => st.exit == .returned := by decide +kernel
  obtain ⟨st, reached, returned⟩ := (Option.any_eq_true _ _).mp done
  have run := run_visits reached
  have round : Round.of 1 (visits (ExitState.inSequence 1) (ExitState.start 1 fun _ => true)
      removal) = ⟨[0], [some 0]⟩ := by decide +kernel
  have finds := finds_of_one run (by decide +kernel)
  exact ⟨_, st, run, round, by simpa using returned, ((stop_copes_iff run).mpr finds).1⟩

/-- The creation of the only thread fails, and then the node is switched off. -/
def failedStart : List ExitAction :=
  [.module (.storeCtrlAttr "on".toList), .module (.startStat false), .module (.startStat true),
    .module (.storeCtrlAttr "off".toList), .module .stopStat]

/-- `stop_stat` calls `kthread_stop` with a null pointer. -/
theorem stop_follows_failed_start :
    ¬ ∀ (maxNumnodes : Nat) (nodeOnline : Nat → Bool) trace st,
      Run (ExitState.inSequence maxNumnodes) (ExitState.start maxNumnodes nodeOnline) trace st →
        StopCopes maxNumnodes trace := by
  intro always
  have done : (exec (ExitState.inSequence 1) (ExitState.start 1 fun _ => true) failedStart).isSome := by
    decide +kernel
  obtain ⟨st, reached⟩ := Option.isSome_iff_exists.mp done
  have copes := always 1 (fun _ => true) _ st (run_visits reached)
  have round : Round.of 1 (visits (ExitState.inSequence 1) (ExitState.start 1 fun _ => true)
      failedStart) = ⟨[], [none]⟩ := by decide +kernel
  have only := (copes.only _ List.prefix_rfl).2
  rw [round] at only
  obtain ⟨tid, created, _⟩ := only none (by simp)
  cases created

end Xstats.Xstat
