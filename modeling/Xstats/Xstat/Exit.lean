/-
**Removing the module** (`xstat_exit`).

`xstat_exit` stops the samplers, frees the nodes one by one, and only then removes the class and with
it the ctrl attribute. Until that last step writes to ctrl are served as before, so that the system
here is the module's own with `xstat_exit` as one more party.

In `ExitState` an iteration over a node is one step, in `start_stat` and `stop_stat` as in
`xstat_exit`. But `unregister_xstat_node` does not take `ctrl_lock`, so that the two may meet on a node.
`UnloadState` has the pieces: `start_stat` and `stop_stat` first load the node's address, and
`unregister_xstat_node` frees the node before it clears its place in `xstat_nodes`.

* `ExitInv.step`: while no node is freed that has a sampler, freeing keeps the protocol's invariant.
* `UnloadInv.step`: so it does in pieces, while nothing is freed whose address is loaded.
* `exit_safe`: in every run that frees only nodes without a sampler, and none that `start_stat` or
  `stop_stat` is about to use, no sampler comes to use a freed node, and none is alive when `xstat_exit`
  has returned.
* `exit_frees_sampled_node`: an `on` between the first phase and the second frees a node under its
  sampler.
-/

import Xstats.Xstat.Lifecycle

namespace Xstats.Xstat

open Transition ModuleState

/-- Where `xstat_exit` stands. -/
inductive ExitPc
  | notCalled
  /-- In its `stop_stat`, which holds `ctrl_lock`. -/
  | stopping
  /-- Before iteration `i` of the loop over the nodes, or before `class_unregister`. -/
  | unregistering (i : Nat)
  | returned
  deriving DecidableEq, Repr

/-- The module and the thread that removes it. -/
structure ExitState where
  core : ModuleState
  exit : ExitPc

inductive ExitAction
  /-- A step of another party. Writes to ctrl are accepted until `class_unregister`. -/
  | module (a : ModuleAction)
  /-- `xstat_exit` is called, and enters `stop_stat`. -/
  | xstatExit
  /-- An iteration of its loop: `unregister_xstat_node`, if the node exists. -/
  | unregisterXstatNode
  | classUnregister

/-- A write to the ctrl attribute. -/
def ModuleAction.IsWrite : ModuleAction → Bool
  | .storeCtrlAttr _ => true
  | _ => false

namespace ExitState

/-- The module initialised and not yet being removed. -/
def start (maxNumnodes : Nat) (nodeOnline : Nat → Bool) : ExitState :=
  { core := xstatInit maxNumnodes nodeOnline, exit := .notCalled }

/-- Where `xstat_exit` stands after a step that left `core`: its `stop_stat` is over when the lock is
free again. -/
def exitAfter (exit : ExitPc) (core : ModuleState) : ExitPc :=
  if exit = .stopping ∧ core.ctrl = .free then .unregistering 0 else exit

/-- `unregister_xstat_node`: the node's memory is freed and its place cleared. -/
def unregisterXstatNode (core : ModuleState) (nid : Nat) : ModuleState := core.setNode nid none

def step (maxNumnodes : Nat) (st : ExitState) : ExitAction → Option ExitState
  | .module a =>
    if st.exit = .returned ∧ a.IsWrite then none
    else (st.core.step maxNumnodes a).map fun core => { core, exit := exitAfter st.exit core }
  | .xstatExit =>
    if st.exit = .notCalled then
      (st.core.enterCall .stopStat).map fun core => { core, exit := exitAfter .stopping core }
    else none
  | .unregisterXstatNode =>
    match st.exit with
    | .unregistering i =>
      if i < maxNumnodes then
        some { core := if (st.core.xstatNodes i).isSome then unregisterXstatNode st.core i else st.core
               exit := .unregistering (i + 1) }
      else none
    | _ => none
  | .classUnregister =>
    match st.exit with
    | .unregistering i => if i < maxNumnodes then none else some { st with exit := .returned }
    | _ => none

end ExitState

/-- What a step of the module or of its removal does. -/
inductive ExitMove (maxNumnodes : Nat) (st : ExitState) : ExitAction → ExitState → Prop
  | module {a : ModuleAction} {core : ModuleState} (stepped : st.core.step maxNumnodes a = some core) :
    ExitMove maxNumnodes st (.module a) { core, exit := ExitState.exitAfter st.exit core }
  | xstatExit {core : ModuleState} (entered : st.core.enterCall .stopStat = some core) :
    ExitMove maxNumnodes st .xstatExit { core, exit := ExitState.exitAfter .stopping core }
  | skips {i : Nat} (here : st.exit = .unregistering i) (absent : st.core.xstatNodes i = none) :
    ExitMove maxNumnodes st .unregisterXstatNode { st with exit := .unregistering (i + 1) }
  | frees {i : Nat} {node : XstatNode} (here : st.exit = .unregistering i)
    (there : st.core.xstatNodes i = some node) :
    ExitMove maxNumnodes st .unregisterXstatNode
      { core := ExitState.unregisterXstatNode st.core i, exit := .unregistering (i + 1) }
  | classUnregister {i : Nat} (here : st.exit = .unregistering i) (beyond : maxNumnodes ≤ i) :
    ExitMove maxNumnodes st .classUnregister { st with exit := .returned }

theorem exitMove_of_step {maxNumnodes : Nat} {st st' : ExitState} {a : ExitAction}
    (taken : st.step maxNumnodes a = some st') : ExitMove maxNumnodes st a st' := by
  cases a with
  | module a =>
    obtain ⟨_, rest⟩ := Option.ite_none_left_eq_some.mp taken
    obtain ⟨core, stepped, rfl⟩ := Option.map_eq_some_iff.mp rest
    exact .module stepped
  | xstatExit =>
    obtain ⟨_, rest⟩ := Option.ite_none_right_eq_some.mp taken
    obtain ⟨core, entered, rfl⟩ := Option.map_eq_some_iff.mp rest
    exact .xstatExit entered
  | unregisterXstatNode =>
    cases here : st.exit with
    | unregistering i =>
      simp only [ExitState.step, here] at taken
      obtain ⟨_, step⟩ := Option.ite_none_right_eq_some.mp taken
      cases step
      cases there : st.core.xstatNodes i with
      | none => exact .skips here there
      | some node => exact .frees here there
    | notCalled | stopping | returned =>
      simp only [ExitState.step, here] at taken
      cases taken
  | classUnregister =>
    cases here : st.exit with
    | unregistering i =>
      simp only [ExitState.step, here] at taken
      obtain ⟨beyond, step⟩ := Option.ite_none_left_eq_some.mp taken
      cases step
      exact .classUnregister here (Nat.le_of_not_lt beyond)
    | notCalled | stopping | returned =>
      simp only [ExitState.step, here] at taken
      cases taken

/-! ### What is to be safe -/

/-- In `roll_buffer` or in `exit_counters`. -/
def SamplerPc.UsesNode : SamplerPc → Prop
  | .restart _ | .commit | .exitCounters _ => True
  | _ => False

/-- No sampler is in `roll_buffer` or `exit_counters` on a freed node, and once `xstat_exit` has
returned none is alive. -/
structure ExitSafe (st : ExitState) : Prop where
  used : ∀ tid th, st.core.samplers tid = some th → th.pc.UsesNode → st.core.xstatNodes th.nid ≠ none
  gone : st.exit = .returned → ∀ tid th, st.core.samplers tid = some th → ¬ th.pc.Alive

/-- The step does not free a node that has a sampler: where it unregisters node `i`, that node's task
is null. -/
def FreesIdle (st : ExitState) (a : ExitAction) : Prop :=
  a = .unregisterXstatNode → ∀ i, st.exit = .unregistering i → ∀ tid, st.core.task i ≠ some (some tid)

/-! ### The invariant -/

/-- The nodes that `xstat_exit` has passed are freed. -/
def ExitPc.Freed (task : Nat → Option (Option Nat)) : ExitPc → Prop
  | .unregistering i => ∀ nid, nid < i → task nid = none
  | .returned => ∀ nid, task nid = none
  | _ => True

structure ExitInv (maxNumnodes : Nat) (st : ExitState) : Prop where
  ctrl : CtrlInv maxNumnodes st.core
  freed : st.exit.Freed st.core.task

section Steps

variable {maxNumnodes : Nat}

/-- Freeing a node without a sampler keeps the protocol's invariant. -/
theorem CtrlInv.unregister {s : ModuleState} (inv : CtrlInv maxNumnodes s) {i : Nat}
    (idle : ∀ tid, s.task i ≠ some (some tid)) :
    CtrlInv maxNumnodes (ExitState.unregisterXstatNode s i) := by
  have tasks : (ExitState.unregisterXstatNode s i).task = Function.update s.task i none :=
    task_setNode ..
  have left : ∀ nid t, Function.update s.task i none nid = some t → nid ≠ i ∧ s.task nid = some t := by
    intro nid t named
    rcases update_eq_iff.mp named with ⟨_, new⟩ | old
    · cases new
    · exact old
  constructor
  case bounded =>
    intro nid t named
    rw [tasks] at named
    exact inv.bounded nid t (left nid t named).2
  case unborn => exact inv.unborn
  case owned =>
    intro tid th thread alive
    have named := inv.owned tid th thread alive
    have apart : th.nid ≠ i := fun same => idle tid (same ▸ named)
    rw [tasks, Function.update_of_ne apart]
    exact named
  case named =>
    intro nid tid named
    rw [tasks] at named
    exact inv.named nid tid (left nid _ named).2
  case exiting => exact inv.exiting
  case lock =>
    have lock := inv.lock
    show s.ctrl.Holds s.ctrlOn _
    rw [tasks]
    cases place : s.ctrl with
    | free =>
      rw [place] at lock
      exact fun off nid tid named => lock off nid tid (left nid _ named).2
    | starting k =>
      rw [place] at lock
      exact ⟨lock.1, fun nid tid named => lock.2 nid tid (left nid _ named).2⟩
    | stopping k =>
      rw [place] at lock
      exact ⟨lock.1, fun nid tid named => lock.2 nid tid (left nid _ named).2⟩
    | waiting k tid =>
      rw [place] at lock
      have apart : k ≠ i := fun same => idle tid (same ▸ lock.2.1)
      refine ⟨lock.1, ?_, fun nid tid named => lock.2.2 nid tid (left nid _ named).2⟩
      rw [Function.update_of_ne apart]
      exact lock.2.1
    | oops => trivial

/-- No step of the module registers a node. -/
theorem task_of_step {s s' : ModuleState} {a : ModuleAction} (taken : s.step maxNumnodes a = some s')
    {nid : Nat} (absent : s.task nid = none) : s'.task nid = none := by
  have kept : ∀ i node, s.xstatNodes i ≠ none → (s.setNode i node).task nid = none := by
    intro i node there
    have apart : nid ≠ i := by
      rintro rfl
      exact there (Option.map_eq_none_iff.mp absent)
    rw [task_setNode, Function.update_of_ne apart]
    exact absent
  cases move_of_step taken with
  | ignored | last _ | startBegins | stopBegins | startSkips | startEnds | stopSkips | stopFaults
  | stops | stopEnds => exact absent
  | starts _ there | startFails _ there | reset there | stat there =>
    exact kept _ _ (by simp [there])
  | @joins i tid th here thread finished =>
    show (s.setNode i _).task nid = none
    rw [task_setNode]
    by_cases same : nid = i
    · subst same
      rw [Function.update_self, Option.map_eq_none_iff.mp absent]
      rfl
    · rw [Function.update_of_ne same]
      exact absent
  | sampler thread move =>
    show (s.setNode _ _).task nid = none
    rw [task_setNode_of_eq move.kept.task_eq]
    exact absent

theorem freed_of_step {s s' : ModuleState} {a : ModuleAction}
    (taken : s.step maxNumnodes a = some s') {exit : ExitPc} (freed : exit.Freed s.task) :
    (ExitState.exitAfter exit s').Freed s'.task := by
  unfold ExitState.exitAfter
  split
  · exact fun nid before => absurd before (Nat.not_lt_zero nid)
  · cases exit with
    | notCalled | stopping => trivial
    | unregistering i => exact fun nid before => task_of_step taken (freed nid before)
    | returned => exact fun nid => task_of_step taken (freed nid)

theorem exitInv_start (maxNumnodes : Nat) (nodeOnline : Nat → Bool) :
    ExitInv maxNumnodes (ExitState.start maxNumnodes nodeOnline) :=
  ⟨ctrlInv_xstatInit maxNumnodes nodeOnline, trivial⟩

theorem ExitInv.step {st st' : ExitState} (inv : ExitInv maxNumnodes st) {a : ExitAction}
    (idle : FreesIdle st a) (taken : st.step maxNumnodes a = some st') : ExitInv maxNumnodes st' := by
  obtain ⟨ctrl, freed⟩ := inv
  cases exitMove_of_step taken with
  | module stepped => exact ⟨ctrl.step stepped, freed_of_step stepped freed⟩
  | xstatExit entered =>
    have stepped : st.core.step maxNumnodes (.storeCtrlAttr "off".toList) = some _ := entered
    exact ⟨ctrl.step stepped, freed_of_step stepped trivial⟩
  | skips here absent =>
    rw [here] at freed
    refine ⟨ctrl, fun nid below => ?_⟩
    rcases Nat.lt_succ_iff_lt_or_eq.mp below with earlier | rfl
    · exact freed nid earlier
    · simp [task, absent]
  | @frees i node here there =>
    rw [here] at freed
    refine ⟨ctrl.unregister (idle rfl i here), fun nid below => ?_⟩
    show (st.core.setNode i none).task nid = none
    rw [task_setNode]
    rcases Nat.lt_succ_iff_lt_or_eq.mp below with earlier | rfl
    · rw [Function.update_of_ne earlier.ne]
      exact freed nid earlier
    · simp
  | classUnregister here beyond =>
    rw [here] at freed
    refine ⟨ctrl, fun nid => ?_⟩
    cases named : st.core.task nid with
    | none => rfl
    | some t =>
      have inside := ctrl.bounded nid t named
      rw [freed nid (by omega)] at named
      cases named

end Steps

/-- What the invariant says of the samplers. -/
theorem ExitInv.safe {maxNumnodes : Nat} {st : ExitState} (inv : ExitInv maxNumnodes st) :
    ExitSafe st := by
  constructor
  case used =>
    intro tid th thread uses freed
    have alive : th.pc.Alive := by
      constructor
      · intro returned
        rw [returned] at uses
        exact uses
      · intro cancelled
        rw [cancelled] at uses
        exact uses
    obtain ⟨node, there, _⟩ := task_eq_some (inv.ctrl.owned tid th thread alive)
    rw [freed] at there
    cases there
  case gone =>
    intro returned tid th thread alive
    have freed := inv.freed
    rw [returned] at freed
    have named := inv.ctrl.owned tid th thread alive
    rw [freed th.nid] at named
    cases named

/-! ### In pieces -/

/-- The module and its removal, with the addresses of nodes that are in use without `ctrl_lock`. -/
structure UnloadState where
  outer : ExitState
  /-- The node whose address `start_stat` or `stop_stat` has loaded, until its iteration is over. -/
  loaded : Option Nat
  /-- The node that `unregister_xstat_node` has freed and `xstat_nodes` still points to. -/
  dangling : Option Nat

inductive UnloadAction
  /-- A step of `ExitState`. Of an iteration of `start_stat` or `stop_stat` over a node it is what follows
  the load: `kthread_create_on_node` returns, and the thread is stored and woken, or `kthread_stop` is
  called. Of `unregister_xstat_node` it is the `kfree`s. -/
  | outer (a : ExitAction)
  /-- `start_stat` or `stop_stat` finds `xstat_nodes[i]` not null, and loads it. These are two reads, which
  differ only if the node is unregistered in between. -/
  | loadNode
  /-- `unregister_xstat_node` sets `xstat_nodes[nid]` to null. -/
  | clearNode

/-- The iteration before which the holder of `ctrl_lock` is, or in which. -/
def CtrlPc.iteration : CtrlPc → Option Nat
  | .starting i | .stopping i => some i
  | _ => none

namespace ExitAction

/-- The iteration of `start_stat` or `stop_stat` that the action is of. -/
def iterates (ctrl : CtrlPc) : ExitAction → Option Nat
  | .module (.startStat _) => match ctrl with
    | .starting i => some i
    | _ => none
  | .module .stopStat => match ctrl with
    | .stopping i => some i
    | _ => none
  | _ => none

/-- A step that `xstat_exit` makes in its loop or behind it. -/
def unloads : ExitAction → Bool
  | .unregisterXstatNode | .classUnregister => true
  | _ => false

end ExitAction

namespace UnloadState

def start (maxNumnodes : Nat) (nodeOnline : Nat → Bool) : UnloadState :=
  { outer := .start maxNumnodes nodeOnline, loaded := none, dangling := none }

/-- `xstat_nodes[nid]` is not null. -/
def points (st : UnloadState) (nid : Nat) : Bool :=
  (st.outer.core.xstatNodes nid).isSome || st.dangling == some nid

/-- The rest of an iteration over a node that has been freed meanwhile. `start_stat` stores the thread in
freed memory and wakes it, with the node's address as its argument. What `stop_stat` finds there is not a
thread. -/
def staleIteration (core : ModuleState) (i : Nat) : ExitAction → ModuleState
  | .module (.startStat true) =>
    { core.setSampler core.nextTid ⟨i, .created, false⟩ with
      nextTid := core.nextTid + 1, ctrl := .starting (i + 1) }
  | .module (.startStat false) => { core with ctrl := .starting (i + 1) }
  | _ => { core with ctrl := .oops }

/-- The node that `xstat_nodes` still points to after the step, although it is freed. -/
def danglingAfter (st : UnloadState) : ExitAction → Option Nat
  | .unregisterXstatNode =>
    match st.outer.exit with
    | .unregistering i => if (st.outer.core.xstatNodes i).isSome then some i else none
    | _ => none
  | _ => st.dangling

def step (maxNumnodes : Nat) (st : UnloadState) : UnloadAction → Option UnloadState
  | .loadNode => do
    let i ← st.outer.core.ctrl.iteration
    if i < maxNumnodes ∧ st.loaded = none ∧ st.points i then some { st with loaded := some i }
    else none
  | .clearNode => st.dangling.map fun _ => { st with dangling := none }
  | .outer a =>
    match a.iterates st.outer.core.ctrl with
    | some i =>
      if st.loaded = some i ∧ (st.outer.core.xstatNodes i).isNone then
        some { st with
          outer := { st.outer with core := staleIteration st.outer.core i a }, loaded := none }
      -- A place that is not null is loaded first.
      else if i < maxNumnodes ∧ st.loaded = none ∧ st.points i then none
      else (st.outer.step maxNumnodes a).map fun outer => { st with outer, loaded := none }
    | none =>
      if a.unloads ∧ st.dangling.isSome then none
      else (st.outer.step maxNumnodes a).map fun outer =>
        { st with outer, dangling := st.danglingAfter a }

end UnloadState

/-- The step does not free a node that is in use, and loads none that is freed: where it frees node `i`,
that node's task is null, and neither `start_stat` nor `stop_stat` has loaded its address; and neither
loads an address that `unregister_xstat_node` is about to clear. -/
def FreesUnused (st : UnloadState) : UnloadAction → Prop
  | .outer .unregisterXstatNode => ∀ i, st.outer.exit = .unregistering i →
    (∀ tid, st.outer.core.task i ≠ some (some tid)) ∧ st.loaded ≠ some i
  | .loadNode => ∀ i, st.outer.core.ctrl.iteration = some i → st.dangling ≠ some i
  | _ => True

/-- A node whose address is loaded is still there. -/
structure UnloadInv (maxNumnodes : Nat) (st : UnloadState) : Prop where
  exit : ExitInv maxNumnodes st.outer
  current : ∀ i, st.loaded = some i →
    st.outer.core.ctrl.iteration = some i ∧ st.outer.core.xstatNodes i ≠ none

section Pieces

variable {maxNumnodes : Nat}

/-- No step of the module unregisters a node. -/
theorem present_of_step {s s' : ModuleState} {a : ModuleAction} (taken : s.step maxNumnodes a = some s')
    {nid : Nat} (present : s.xstatNodes nid ≠ none) : s'.xstatNodes nid ≠ none := by
  have kept : ∀ i node, node ≠ none → (s.setNode i node).xstatNodes nid ≠ none := by
    intro i node there
    rw [xstatNodes_setNode]
    split
    · exact there
    · exact present
  cases move_of_step taken with
  | ignored | last _ | startBegins | stopBegins | startSkips | startEnds | stopSkips | stopFaults
  | stops | stopEnds => exact present
  | starts | startFails | reset | stat => exact kept _ _ (Option.some_ne_none _)
  | @joins i =>
    show (s.setNode i _).xstatNodes nid ≠ none
    rw [xstatNodes_setNode]
    split
    · next same =>
      rw [Ne, Option.map_eq_none_iff, ← same]
      exact present
    · exact present
  | @sampler tid input th after thread move =>
    show (s.setNode th.nid after.node).xstatNodes nid ≠ none
    rw [xstatNodes_setNode]
    split
    · next same =>
      intro gone
      have task := move.kept.task_eq
      rw [gone, Option.map_none, eq_comm, Option.map_eq_none_iff, ← same] at task
      exact present task
    · exact present

/-- The holder of `ctrl_lock` stays in its iteration until it makes it. -/
theorem iteration_of_step {st st' : ExitState} {a : ExitAction} {i : Nat}
    (taken : st.step maxNumnodes a = some st') (here : st.core.ctrl.iteration = some i)
    (other : a.iterates st.core.ctrl = none) : st'.core.ctrl.iteration = some i := by
  have held : st.core.ctrl ≠ .free := by
    intro free
    rw [free] at here
    cases here
  cases exitMove_of_step taken with
  | module stepped =>
    cases move_of_step stepped with
    | ignored | last _ | reset | stat | sampler => exact here
    | startBegins free | stopBegins free => exact absurd free held
    | startSkips place | starts place | startFails place | startEnds place | stopSkips place
    | stopFaults place | stops place | stopEnds place =>
      rw [place] at other
      cases other
    | joins place =>
      rw [place] at here
      cases here
  | xstatExit entered => exact absurd (Option.ite_none_right_eq_some.mp entered).1 held
  | skips | classUnregister | frees => exact here

/-- A node is there until it is freed. -/
theorem present_of_exitStep {st st' : ExitState} {a : ExitAction} {i : Nat}
    (taken : st.step maxNumnodes a = some st') (present : st.core.xstatNodes i ≠ none)
    (kept : a = .unregisterXstatNode → st.exit ≠ .unregistering i) : st'.core.xstatNodes i ≠ none := by
  cases exitMove_of_step taken with
  | module inner => exact present_of_step inner present
  | xstatExit entered =>
    have inner : st.core.step maxNumnodes (.storeCtrlAttr "off".toList) = some _ := entered
    exact present_of_step inner present
  | skips | classUnregister => exact present
  | @frees k node exit there =>
    have apart : i ≠ k := by
      rintro rfl
      exact kept rfl exit
    show (st.core.setNode k none).xstatNodes i ≠ none
    rw [xstatNodes_setNode, if_neg apart]
    exact present

/-- Where no loaded address is stale, a step is one of `ExitState`, or changes nothing there. -/
theorem UnloadInv.outer_of_step {st st' : UnloadState} (inv : UnloadInv maxNumnodes st)
    {a : UnloadAction} (taken : st.step maxNumnodes a = some st') :
    (st'.outer = st.outer ∧ ∀ b, a ≠ .outer b) ∨
      ∃ b, a = .outer b ∧ st.outer.step maxNumnodes b = some st'.outer ∧
        (st'.loaded = none ∨ st'.loaded = st.loaded ∧ b.iterates st.outer.core.ctrl = none) := by
  cases a with
  | loadNode =>
    obtain ⟨i, _, step⟩ := Option.bind_eq_some_iff.mp taken
    obtain ⟨_, step⟩ := Option.ite_none_right_eq_some.mp step
    cases step
    exact .inl ⟨rfl, fun _ same => by cases same⟩
  | clearNode =>
    obtain ⟨_, _, rfl⟩ := Option.map_eq_some_iff.mp taken
    exact .inl ⟨rfl, fun _ same => by cases same⟩
  | outer b =>
    refine .inr ⟨b, rfl, ?_⟩
    simp only [UnloadState.step] at taken
    cases iterates : b.iterates st.outer.core.ctrl with
    | some i =>
      simp only [iterates] at taken
      by_cases stale : st.loaded = some i ∧ (st.outer.core.xstatNodes i).isNone
      · exact absurd (Option.isNone_iff_eq_none.mp stale.2) (inv.current i stale.1).2
      · rw [if_neg stale] at taken
        obtain ⟨_, step⟩ := Option.ite_none_left_eq_some.mp taken
        obtain ⟨outer, stepped, rfl⟩ := Option.map_eq_some_iff.mp step
        exact ⟨stepped, .inl rfl⟩
    | none =>
      simp only [iterates] at taken
      obtain ⟨_, step⟩ := Option.ite_none_left_eq_some.mp taken
      obtain ⟨outer, stepped, rfl⟩ := Option.map_eq_some_iff.mp step
      exact ⟨stepped, .inr ⟨rfl, rfl⟩⟩

theorem unloadInv_start (maxNumnodes : Nat) (nodeOnline : Nat → Bool) :
    UnloadInv maxNumnodes (UnloadState.start maxNumnodes nodeOnline) :=
  ⟨exitInv_start maxNumnodes nodeOnline, fun _ none => by cases none⟩

/-- A step that frees no node in use frees none with a sampler. -/
theorem FreesUnused.idle {st : UnloadState} {a : ExitAction} (unused : FreesUnused st (.outer a)) :
    FreesIdle st.outer a := by
  rintro rfl i here
  exact (unused i here).1

theorem UnloadInv.step {st st' : UnloadState} (inv : UnloadInv maxNumnodes st) {a : UnloadAction}
    (unused : FreesUnused st a) (taken : st.step maxNumnodes a = some st') :
    UnloadInv maxNumnodes st' := by
  rcases inv.outer_of_step taken with ⟨same, inner⟩ | ⟨b, rfl, stepped, loaded⟩
  · refine ⟨same ▸ inv.exit, fun i here => ?_⟩
    rw [same]
    cases a with
    | outer b => exact absurd rfl (inner b)
    | clearNode =>
      obtain ⟨_, _, rfl⟩ := Option.map_eq_some_iff.mp taken
      exact inv.current i here
    | loadNode =>
      obtain ⟨k, place, step⟩ := Option.bind_eq_some_iff.mp taken
      obtain ⟨⟨_, _, points⟩, step⟩ := Option.ite_none_right_eq_some.mp step
      cases step
      cases here
      -- what the place points to is not being freed
      have there : (st.outer.core.xstatNodes i).isSome := by
        rcases Bool.or_eq_true_iff.mp points with there | freed
        · exact there
        · exact absurd (beq_iff_eq.mp freed) (unused i place)
      exact ⟨place, Option.isSome_iff_ne_none.mp there⟩
  · refine ⟨inv.exit.step unused.idle stepped, fun i here => ?_⟩
    rcases loaded with none | ⟨kept, other⟩
    · rw [none] at here
      cases here
    · rw [kept] at here
      obtain ⟨place, present⟩ := inv.current i here
      refine ⟨iteration_of_step stepped place other, present_of_exitStep stepped present ?_⟩
      rintro rfl exit
      exact (unused i exit).2 here

end Pieces

/-! ### Runs -/

/-- **Removal is safe while it frees no node in use.** Whatever is written to ctrl meanwhile and however
the steps fall, in every run in which `xstat_exit` frees only nodes whose task is null and that
`start_stat` or `stop_stat` has not loaded, and neither loads one that is freed, no state has a sampler in
`roll_buffer` or `exit_counters` on a freed node, or a living sampler once `xstat_exit` has returned. -/
theorem exit_safe {maxNumnodes : Nat} {nodeOnline : Nat → Bool}
    {trace : List (UnloadState × UnloadAction)} {st : UnloadState}
    (run : Run (UnloadState.step maxNumnodes) (UnloadState.start maxNumnodes nodeOnline) trace st)
    (unused : ∀ x ∈ trace, FreesUnused x.1 x.2) :
    ExitSafe st.outer ∧ ∀ x ∈ trace, ExitSafe x.1.outer := by
  have preserve : ∀ st a st', UnloadInv maxNumnodes st → FreesUnused st a →
      UnloadState.step maxNumnodes st a = some st' → UnloadInv maxNumnodes st' :=
    fun _ _ _ before unused taken => before.step unused taken
  have init := unloadInv_start maxNumnodes nodeOnline
  exact ⟨(run.invariant FreesUnused init preserve unused).exit.safe,
    fun x member => (run.visited FreesUnused init preserve unused x member).exit.safe⟩

/-- Steps of the sampler of node 0. -/
def samplerSteps (count : Nat) : List ModuleAction := List.replicate count (.sampler 0 default)

/-- An `on` for one node: its sampler is created and woken. -/
def startsNode : List UnloadAction :=
  [.outer (.module (.storeCtrlAttr "on".toList)), .loadNode, .outer (.module (.startStat true)),
    .outer (.module (.startStat true))]

/-- A node is sampled and switched off, its sampler ends, and the module's removal begins. -/
def removalAfterOff : List UnloadAction :=
  List.flatten [startsNode, (samplerSteps 20).map fun a => .outer (.module a),
    [.outer (.module (.storeCtrlAttr "off".toList)), .loadNode, .outer (.module .stopStat)],
    (samplerSteps 32).map fun a => .outer (.module a),
    [.outer (.module .stopStat), .outer (.module .stopStat), .outer .xstatExit]]

/-- The step meets the condition of `exit_safe` on node 0. -/
def freesUnusedThere (st : UnloadState) : UnloadAction → Bool
  | .outer .unregisterXstatNode =>
    st.outer.exit == .unregistering 0 && st.outer.core.task 0 == some none && st.loaded == none
  | .loadNode => st.dangling == none
  | _ => true

theorem freesUnused_of_there {st : UnloadState} {a : UnloadAction}
    (checked : freesUnusedThere st a = true) : FreesUnused st a := by
  unfold FreesUnused
  split
  · simp only [freesUnusedThere, Bool.and_eq_true, beq_iff_eq] at checked
    obtain ⟨⟨place, task⟩, loaded⟩ := checked
    intro i here
    rw [place] at here
    cases here
    exact ⟨by simp [task], by simp [loaded]⟩
  · intro i _
    rw [beq_iff_eq.mp checked]
    exact Option.some_ne_none i |>.symm
  · trivial

/-- A removal that finds the node's sampler gone: when it has returned no sampler is alive. -/
theorem exit_safe_switched_off :
    ∃ trace st, Run (UnloadState.step 1) (UnloadState.start 1 fun _ => true) trace st ∧
      st.outer.exit = .returned ∧
      trace.map Prod.snd = removalAfterOff ++
        [.outer .unregisterXstatNode, .clearNode, .outer .classUnregister] ∧
      ∀ tid th, st.outer.core.samplers tid = some th → ¬ th.pc.Alive := by
  have done : (exec (guarded freesUnusedThere (UnloadState.step 1)) (.start 1 fun _ => true)
      (removalAfterOff ++ [.outer .unregisterXstatNode, .clearNode, .outer .classUnregister])).any
        fun st => st.outer.exit == .returned := by decide +kernel
  obtain ⟨trace, st, run, same, returned⟩ := run_of_exec_any done
  obtain ⟨run, checks⟩ := run.of_guarded
  have safe := exit_safe run fun x member => freesUnused_of_there (checks x member)
  have returned := beq_iff_eq.mp returned
  exact ⟨trace, st, run, returned, same, safe.1.gone returned⟩

/-- An `on` after the first phase: the sampler is in `roll_buffer` when its node is freed. -/
def removalUnderSampler : List UnloadAction :=
  List.flatten [[.outer .xstatExit], startsNode, (samplerSteps 17).map fun a => .outer (.module a),
    [.outer .unregisterXstatNode]]

/-- After `xstat_exit` has stopped the samplers an `on` starts one, whose node it then frees. -/
theorem exit_frees_sampled_node :
    ¬ ∀ (maxNumnodes : Nat) (nodeOnline : Nat → Bool) trace st,
      Run (UnloadState.step maxNumnodes) (UnloadState.start maxNumnodes nodeOnline) trace st →
        ExitSafe st.outer := by
  intro always
  have done : (exec (UnloadState.step 1) (UnloadState.start 1 fun _ => true)
      removalUnderSampler).any fun st =>
      st.outer.core.samplers 0 == some ⟨0, .restart 0, false⟩ &&
        (st.outer.core.xstatNodes 0).isNone := by
    decide +kernel
  obtain ⟨trace, st, run, _, passed⟩ := run_of_exec_any done
  simp only [Bool.and_eq_true, beq_iff_eq, Option.isNone_iff_eq_none] at passed
  exact (always 1 _ trace st run).used 0 _ passed.1 trivial passed.2

/-- The task alone does not tell: it is null while `start_stat` waits in `kthread_create_on_node`, and
the sampler that is woken on the freed node outlives `xstat_exit`. -/
example : (exec (UnloadState.step 1) (.start 1 fun _ => true) [.outer .xstatExit,
    .outer (.module (.storeCtrlAttr "on".toList)), .loadNode, .outer .unregisterXstatNode, .clearNode,
    .outer .classUnregister, .outer (.module (.startStat true))]).any (fun st =>
      st.outer.exit == .returned && st.outer.core.samplers 0 == some ⟨0, .created, false⟩) := by
  decide +kernel

end Xstats.Xstat
