/-
**The life cycle of samplers and of perf contexts.**

What should happen to a node, and to a perf context, is written as two small automata that read the
history: a node goes round from idle through `init_counters`, sampling and `exit_counters`, always
by one thread; a context is allocated, read by the thread that allocated it, and released once by
that thread. A history that an automaton cannot read is a use after free, a double free, or two
threads on one node.

* `LifeInv.step`, `CtxInv.step`: the automata read every step, and end in the state that the threads'
  places say.
* `sampler_life_cycle`: with every creation succeeding, in every state of every run a node has at
  most one living sampler, exactly one while the flag is set, and none once `stop_stat` has completed;
  the automata accept; and a context outlives its thread never.
-/

import Xstats.Xstat.Control

namespace Xstats.Xstat

open Transition ModuleState

/-! ### The automata -/

/-- Which of its functions the thread of a node is in. -/
inductive NodePhase
  | idle
  | initialising (tid : Nat)
  | sampling (tid : Nat)
  | exiting (tid : Nat)
  deriving DecidableEq, Repr

/-- What may happen on node `nid`. Events of other nodes do not matter to it. -/
def lifeStep (nid : Nat) (phase : NodePhase) : Event → Option NodePhase
  | .initEntered n tid =>
    if n = nid then if phase = .idle then some (.initialising tid) else none else some phase
  | .initReturned n tid =>
    if n = nid then if phase = .initialising tid then some (.sampling tid) else none else some phase
  | .exitEntered n tid =>
    if n = nid then if phase = .sampling tid then some (.exiting tid) else none else some phase
  | .exitReturned n tid =>
    if n = nid then if phase = .exiting tid then some .idle else none else some phase
  | _ => some phase

/-- What has become of a perf context. -/
inductive CtxPhase
  | unborn
  | live (tid : Nat)
  | released
  deriving DecidableEq, Repr

/-- What may happen to the context `ctx`. -/
def ctxStep (ctx : Nat) (phase : CtxPhase) : Event → Option CtxPhase
  | .perfInit c tid =>
    if c = ctx then if phase = .unborn then some (.live tid) else none else some phase
  | .perfRestart c tid =>
    if c = ctx then if phase = .live tid then some phase else none else some phase
  | .perfExit c tid =>
    if c = ctx then if phase = .live tid then some .released else none else some phase
  | _ => some phase

/-- The node's automaton after the history, none if it could not read it. -/
def ModuleState.nodeLife (s : ModuleState) (nid : Nat) : Option NodePhase :=
  exec (lifeStep nid) .idle s.history

/-- The context's automaton after the history. -/
def ModuleState.ctxLife (s : ModuleState) (ctx : Nat) : Option CtxPhase :=
  exec (ctxStep ctx) .unborn s.history

/-- An event that no context's automaton sees. -/
def Event.Quiet (event : Event) : Prop := ∀ ctx phase, ctxStep ctx phase event = some phase

theorem exec_of_quiet {events : List Event} (quiet : ∀ event ∈ events, event.Quiet) (ctx : Nat)
    (phase : CtxPhase) : exec (ctxStep ctx) phase events = some phase := by
  induction events with
  | nil => rfl
  | cons event rest ih =>
    rw [exec, quiet event List.mem_cons_self]
    exact ih fun later member => quiet later (List.mem_cons_of_mem _ member)

theorem exec_cons_of_quiet {event : Event} {rest : List Event}
    (quiet : ∀ later ∈ rest, later.Quiet) (ctx : Nat) (phase : CtxPhase) :
    exec (ctxStep ctx) phase (event :: rest) = ctxStep ctx phase event := by
  rw [exec]
  cases ctxStep ctx phase event with
  | none => rfl
  | some next => exact exec_of_quiet quiet ctx next

/-! ### Nodes -/

/-- The phase of a node whose thread is at `pc`. -/
def SamplerPc.phase (tid : Nat) : SamplerPc → NodePhase
  | .created | .returned | .cancelled => .idle
  | .initCounters _ => .initialising tid
  | .exitCounters _ => .exiting tid
  | _ => .sampling tid

/-- The phase that a node's thread says it is in. -/
def ModuleState.nodePhase (s : ModuleState) (nid : Nat) : NodePhase :=
  onThread s.samplers (fun tid pc => pc.phase tid) .idle (s.task nid)

theorem phase_afterRestart (tid : Nat) (i : Fin xstatNcnt) :
    (afterRestart i).phase tid = .sampling tid := by
  unfold afterRestart
  split <;> rfl

theorem life_afterInit (nid tid : Nat) (i : Fin xstatNcnt) :
    exec (lifeStep nid) (.initialising tid) (afterInit nid tid i).2 =
      some ((afterInit nid tid i).1.phase tid) := by
  unfold afterInit
  split
  · rfl
  · simp [exec, lifeStep, SamplerPc.phase]

theorem life_afterExit (nid tid : Nat) (i : Fin xstatNcnt) :
    exec (lifeStep nid) (.exiting tid) (afterExit nid tid i).2 =
      some ((afterExit nid tid i).1.phase tid) := by
  unfold afterExit
  split
  · rfl
  · simp [exec, lifeStep, SamplerPc.phase]

section ThreadSteps

variable {nid tid nextCtx : Nat} {shouldStop : Bool} {node : Option XstatNode}
  {input : Input} {pc : SamplerPc} {after : ThreadStep}

/-- The node's automaton follows its thread. -/
theorem ThreadMove.life
    (move : ThreadMove nid tid shouldStop nextCtx input pc node after) :
    exec (lifeStep nid) (pc.phase tid) after.events = some (after.pc.phase tid) := by
  cases move with
  | run => simp [exec, lifeStep, SamplerPc.phase]
  | cancel | commit | afterRoll | sleep | wake | again => rfl
  | initPerf => exact life_afterInit nid tid _
  | init => exact life_afterInit nid tid _
  | restartPerf | restart => exact congrArg some (phase_afterRestart tid _).symm
  | leave check => rcases check with rfl | rfl <;> simp [exec, lifeStep, SamplerPc.phase]
  | exitPerf => exact life_afterExit nid tid _
  | exit => exact life_afterExit nid tid _

/-- The automaton of another node sees nothing. -/
theorem ThreadMove.life_other
    (move : ThreadMove nid tid shouldStop nextCtx input pc node after) {other : Nat}
    (apart : nid ≠ other) (phase : NodePhase) :
    exec (lifeStep other) phase after.events = some phase := by
  have afterInit : ∀ i, exec (lifeStep other) phase (afterInit nid tid i).2 = some phase := by
    intro i
    unfold Xstat.afterInit
    split <;> simp [exec, lifeStep, apart]
  have afterExit : ∀ i, exec (lifeStep other) phase (afterExit nid tid i).2 = some phase := by
    intro i
    unfold Xstat.afterExit
    split <;> simp [exec, lifeStep, apart]
  cases move with
  | run | leave => simp [exec, lifeStep, apart]
  | cancel | commit | afterRoll | sleep | wake | restartPerf | restart | again => rfl
  | initPerf => exact afterInit _
  | init => exact afterInit _
  | exitPerf => exact afterExit _
  | exit => exact afterExit _

end ThreadSteps

section NodeLife

variable {maxNumnodes : Nat} {s s' : ModuleState}

/-- Every node's automaton has read the history and stands where its thread does. -/
def LifeInv (s : ModuleState) : Prop := ∀ nid, s.nodeLife nid = some (s.nodePhase nid)

theorem lifeInv_xstatInit (maxNumnodes : Nat) (nodeOnline : Nat → Bool) :
    LifeInv (xstatInit maxNumnodes nodeOnline) := by
  intro nid
  unfold nodePhase onThread
  split
  · rfl
  · rfl

/-- The step of a thread moves its own node's automaton and no other. -/
theorem LifeInv.sampler (life : LifeInv s) (inv : CtrlInv maxNumnodes s) {tid : Nat} {input : Input}
    {th : Sampler} {after : ThreadStep} (thread : s.samplers tid = some th)
    (move : ThreadMove th.nid tid th.shouldStop s.nextCtx input th.pc
      (s.xstatNodes th.nid) after) :
    LifeInv { (s.setNode th.nid after.node).setSampler tid { th with pc := after.pc } with
      nextCtx := after.nextCtx
      history := s.history ++ after.events } := by
  have tasks : (s.setNode th.nid after.node).task = s.task := task_setNode_of_eq move.kept.task_eq
  intro nid
  show exec (lifeStep nid) .idle (s.history ++ after.events) =
    some (onThread (Function.update s.samplers tid _) _ .idle ((s.setNode _ _).task nid))
  rw [exec_append, show exec (lifeStep nid) .idle s.history = _ from life nid, Option.bind_some, tasks]
  by_cases own : nid = th.nid
  · subst own
    obtain ⟨before, now⟩ := inv.onThread_own (f := fun tid pc => pc.phase tid) thread
      move.kept.alive after.pc
    rw [nodePhase, before, now]
    exact move.life
  · rw [inv.onThread_other thread _ own]
    exact move.life_other (Ne.symm own) _

theorem LifeInv.step (life : LifeInv s) (inv : CtrlInv maxNumnodes s) {a : ModuleAction}
    (taken : s.step maxNumnodes a = some s') : LifeInv s' := by
  by_cases thread : ∃ tid input, a = .sampler tid input
  · obtain ⟨tid, input, rfl⟩ := thread
    cases move_of_step taken with
    | sampler thread move => exact life.sampler inv thread move
  · have other : ∀ tid input, a ≠ .sampler tid input := fun tid input is => thread ⟨tid, input, is⟩
    intro nid
    have phase : s'.nodePhase nid = s.nodePhase nid :=
      inv.onThread_step (fun _ => rfl) (fun _ => rfl) (fun _ => rfl) taken other nid
    rw [nodeLife, history_of_step taken other, phase]
    exact life nid

end NodeLife

/-! ### Contexts -/

/-- A thread at `pc` holds a context in the entry of the perf counter `i`. -/
def SamplerPc.Holds (i : Fin xstatNcnt) : SamplerPc → Prop
  | .created | .returned | .cancelled => False
  | .initCounters k => i < k
  | .exitCounters k => k ≤ i
  | _ => True

/-- The perf counters. -/
def IsPerf (i : Fin xstatNcnt) : Prop := (nodeCounters i).init = some .perfInit

theorem alive_of_holds {pc : SamplerPc} {i : Fin xstatNcnt} (holds : pc.Holds i) : pc.Alive := by
  unfold SamplerPc.Alive
  constructor
  · rintro rfl
    exact holds
  · rintro rfl
    exact holds

theorem holds_afterRestart (i k : Fin xstatNcnt) : (afterRestart k).Holds i := by
  unfold afterRestart
  split <;> trivial

/-- An iteration of `init_counters` adds its own entry. -/
theorem holds_afterInit (nid tid : Nat) (i k : Fin xstatNcnt) :
    (afterInit nid tid k).1.Holds i ↔ i < k ∨ i = k := by
  unfold afterInit nextCounter
  split
  · have next : _ = _ := ‹_›
    split at next
    · cases next
      simp only [SamplerPc.Holds, Fin.lt_def, Fin.ext_iff]
      omega
    · cases next
  · have last : _ = _ := ‹_›
    split at last
    · cases last
    · simp only [SamplerPc.Holds, true_iff, Fin.lt_def, Fin.ext_iff]
      omega

/-- An iteration of `exit_counters` gives up its own entry. -/
theorem holds_afterExit (nid tid : Nat) (i k : Fin xstatNcnt) :
    (afterExit nid tid k).1.Holds i ↔ k ≤ i ∧ i ≠ k := by
  unfold afterExit nextCounter
  split
  · have next : _ = _ := ‹_›
    split at next
    · cases next
      simp only [SamplerPc.Holds, Fin.le_def, Fin.ext_iff, ne_eq]
      omega
    · cases next
  · have last : _ = _ := ‹_›
    split at last
    · cases last
    · simp only [SamplerPc.Holds, false_iff, not_and, Fin.le_def, Fin.ext_iff, ne_eq, not_not]
      omega

theorem quiet_afterInit (nid tid : Nat) (i : Fin xstatNcnt) :
    ∀ event ∈ (afterInit nid tid i).2, event.Quiet := by
  unfold afterInit
  split <;> simp [Event.Quiet, ctxStep]

theorem quiet_afterExit (nid tid : Nat) (i : Fin xstatNcnt) :
    ∀ event ∈ (afterExit nid tid i).2, event.Quiet := by
  unfold afterExit
  split <;> simp [Event.Quiet, ctxStep]

/-- What a thread's step does to the perf entries of its node and to the contexts. -/
inductive CtxEffect (tid nextCtx : Nat) (pc : SamplerPc) (node : Option XstatNode)
    (after : ThreadStep) : Prop
  | keep (holds : ∀ i, IsPerf i → (after.pc.Holds i ↔ pc.Holds i))
      (entries : ∀ i, IsPerf i →
        after.node.map (fun node => node.ctxs i) = node.map fun node => node.ctxs i)
      (next : after.nextCtx = nextCtx)
      (events : (∀ event ∈ after.events, event.Quiet) ∨ ∃ k ctx, IsPerf k ∧ pc.Holds k ∧
        node.map (fun node => node.ctxs k) = some (.perf ctx) ∧
        after.events = [.perfRestart ctx tid])
  | allocate (k : Fin xstatNcnt) (perf : IsPerf k) (fresh : ¬ pc.Holds k)
      (holds : ∀ i, after.pc.Holds i ↔ pc.Holds i ∨ i = k)
      (entries : ∀ i, after.node.map (fun node => node.ctxs i) =
        node.map fun node => if i = k then .perf nextCtx else node.ctxs i)
      (there : node.isSome) (next : after.nextCtx = nextCtx + 1)
      (events : ∃ rest, after.events = .perfInit nextCtx tid :: rest ∧ ∀ event ∈ rest, event.Quiet)
  | release (k : Fin xstatNcnt) (ctx : Nat) (perf : IsPerf k) (held : pc.Holds k)
      (entry : node.map (fun node => node.ctxs k) = some (.perf ctx))
      (holds : ∀ i, after.pc.Holds i ↔ pc.Holds i ∧ i ≠ k)
      (entries : after.node = node) (next : after.nextCtx = nextCtx)
      (events : ∃ rest, after.events = .perfExit ctx tid :: rest ∧ ∀ event ∈ rest, event.Quiet)

theorem ThreadMove.ctxEffect {nid tid nextCtx : Nat} {shouldStop : Bool} {node : Option XstatNode}
    {input : Input} {pc : SamplerPc} {after : ThreadStep}
    (move : ThreadMove nid tid shouldStop nextCtx input pc node after) :
    CtxEffect tid nextCtx pc node after := by
  have perfOfRestart : ∀ i, (nodeCounters i).restart = .perfRestart → IsPerf i := by
    unfold IsPerf
    decide
  have quietCall : ∀ event, (event = .initEntered nid tid ∨ event = .exitEntered nid tid) →
      Event.Quiet event := by
    rintro _ (rfl | rfl) <;> simp [Event.Quiet, ctxStep]
  have setOfPerf : ∀ i, IsPerf i → (nodeCounters i).init.isSome := by
    intro i perf
    rw [show (nodeCounters i).init = _ from perf]
    rfl
  cases move with
  | run =>
    refine .keep (fun i _ => ?_) (fun _ _ => rfl) rfl (.inl (by simp [quietCall]))
    simp [SamplerPc.Holds]
  | cancel | afterRoll | sleep | wake | again =>
    exact .keep (fun _ _ => Iff.rfl) (fun _ _ => rfl) rfl (.inl (by simp))
  | @initPerf node k perf =>
    refine .allocate k perf (fun held => Nat.lt_irrefl _ held)
      (fun i => holds_afterInit nid tid i k) (fun i => ?_) rfl rfl
      ⟨_, rfl, quiet_afterInit nid tid k⟩
    simp only [Option.map_some, XstatNode.ctxs_initCounter, XstatNode.initSlot, perf,
      Function.update_apply]
  | @init node k other =>
    have apart : ∀ i, IsPerf i → i ≠ k := fun i perf same => other (same ▸ perf)
    refine .keep (fun i perf => ?_) (fun i perf => ?_) rfl (.inl (quiet_afterInit nid tid k))
    · exact (holds_afterInit nid tid i k).trans (or_iff_left (apart i perf))
    · simp [XstatNode.ctxs_initCounter, apart i perf]
  | @restartPerf node node' k ctx perf entry done =>
    refine .keep (fun i _ => iff_of_true (holds_afterRestart i k) trivial) (fun i isPerf => ?_) rfl
      (.inr ⟨k, ctx, perfOfRestart k perf, trivial, by simp [entry], rfl⟩)
    simp [(XstatNode.restartCounter_spec done).ctxs_eq i (setOfPerf i isPerf)]
  | @restart node node' k other done =>
    refine .keep (fun i _ => iff_of_true (holds_afterRestart i k) trivial) (fun i isPerf => ?_) rfl
      (.inl (by simp))
    simp [(XstatNode.restartCounter_spec done).ctxs_eq i (setOfPerf i isPerf)]
  | commit =>
    refine .keep (fun _ _ => Iff.rfl) (fun i _ => ?_) rfl (.inl (by simp [Event.Quiet, ctxStep]))
    simp
  | leave check =>
    refine .keep (fun i _ => ?_) (fun _ _ => rfl) rfl (.inl (by simp [quietCall]))
    rcases check with rfl | rfl <;> simp [SamplerPc.Holds]
  | @exitPerf node k ctx perf entry =>
    refine .release k ctx ((exit_iff_perfInit k).mp perf) (Fin.le_refl k) (by simp [entry])
      (fun i => holds_afterExit nid tid i k) rfl rfl ⟨_, rfl, quiet_afterExit nid tid k⟩
  | @exit node k other =>
    have apart : ∀ i, IsPerf i → i ≠ k := fun i perf same =>
      other ((exit_iff_perfInit k).mpr (same ▸ perf))
    exact .keep (fun i perf => (holds_afterExit nid tid i k).trans (and_iff_left (apart i perf)))
      (fun _ _ => rfl) rfl (.inl (quiet_afterExit nid tid k))

/-- Thread `tid` of node `nid` holds a context in entry `i`. -/
def ModuleState.Holding (s : ModuleState) (tid nid : Nat) (i : Fin xstatNcnt) : Prop :=
  ∃ th, s.samplers tid = some th ∧ th.nid = nid ∧ th.pc.Holds i ∧ IsPerf i

/-- What a thread holds is read from where it is. -/
theorem holding_iff {s : ModuleState} {tid : Nat} {th : Sampler} (thread : s.samplers tid = some th)
    {nid : Nat} {i : Fin xstatNcnt} :
    s.Holding tid nid i ↔ nid = th.nid ∧ th.pc.Holds i ∧ IsPerf i := by
  constructor
  · rintro ⟨th', found, rfl, holds, perf⟩
    rw [thread] at found
    cases found
    exact ⟨rfl, holds, perf⟩
  · rintro ⟨rfl, holds, perf⟩
    exact ⟨th, thread, rfl, holds, perf⟩

theorem holding_congr {s s' : ModuleState} {tid : Nat} (same : s'.samplers tid = s.samplers tid)
    {nid : Nat} {i : Fin xstatNcnt} : s'.Holding tid nid i ↔ s.Holding tid nid i := by
  unfold ModuleState.Holding
  rw [same]

/-- A thread holds contexts of its own node only. -/
theorem ModuleState.Holding.sameNode {s : ModuleState} {tid nid nid' : Nat} {i j : Fin xstatNcnt}
    (first : s.Holding tid nid i) (second : s.Holding tid nid' j) : nid = nid' := by
  obtain ⟨th, thread, rfl, _⟩ := first
  exact ((holding_iff thread).mp second).1.symm

/-- Entry `i` of a node's `ctxs`. -/
def ModuleState.entry (s : ModuleState) (nid : Nat) (i : Fin xstatNcnt) : Option Slot :=
  (s.xstatNodes nid).map fun node => node.ctxs i

/-- Threads, entries and contexts: a living context is in just one entry, that of the thread that
allocated it. -/
structure CtxInv (s : ModuleState) : Prop where
  accepted : ∀ ctx, ∃ phase, s.ctxLife ctx = some phase
  unborn : ∀ ctx, s.nextCtx ≤ ctx → s.ctxLife ctx = some .unborn
  held : ∀ tid nid i, s.Holding tid nid i →
    ∃ ctx, s.entry nid i = some (.perf ctx) ∧ s.ctxLife ctx = some (.live tid)
  apart : ∀ tid nid i j, s.Holding tid nid i → s.Holding tid nid j →
    s.entry nid i = s.entry nid j → i = j
  holder : ∀ ctx tid, s.ctxLife ctx = some (.live tid) →
    ∃ nid i, s.Holding tid nid i ∧ s.entry nid i = some (.perf ctx)

/-- The context that a thread holds is alive, and the thread's own. -/
theorem CtxInv.live {s : ModuleState} (ctxs : CtxInv s) {tid nid ctx : Nat} {i : Fin xstatNcnt}
    (holding : s.Holding tid nid i) (entry : s.entry nid i = some (.perf ctx)) :
    s.ctxLife ctx = some (.live tid) := by
  obtain ⟨other, there, live⟩ := ctxs.held tid nid i holding
  rw [entry] at there
  cases there
  exact live

theorem ctxInv_xstatInit (maxNumnodes : Nat) (nodeOnline : Nat → Bool) :
    CtxInv (xstatInit maxNumnodes nodeOnline) where
  accepted := fun _ => ⟨_, rfl⟩
  unborn := fun _ _ => rfl
  held := fun _ _ _ holding => by
    obtain ⟨_, thread, _⟩ := holding
    cases thread
  apart := fun _ _ _ _ holding => by
    obtain ⟨_, thread, _⟩ := holding
    cases thread
  holder := fun _ _ live => by cases live

section CtxSteps

variable {maxNumnodes : Nat} {s s' : ModuleState}

/-- A step that changes neither the contexts held nor what has become of any. -/
theorem CtxInv.of_same (ctxs : CtxInv s) (life : ∀ ctx, s'.ctxLife ctx = s.ctxLife ctx)
    (next : s'.nextCtx = s.nextCtx) (holding : ∀ tid nid i, s'.Holding tid nid i ↔ s.Holding tid nid i)
    (entry : ∀ tid nid i, s.Holding tid nid i → s'.entry nid i = s.entry nid i) : CtxInv s' := by
  constructor
  case accepted => simpa only [life] using ctxs.accepted
  case unborn => simpa only [life, next] using ctxs.unborn
  case held =>
    intro tid nid i holds
    rw [holding] at holds
    simpa only [life, entry tid nid i holds] using ctxs.held tid nid i holds
  case apart =>
    intro tid nid i j first second same
    rw [holding] at first second
    rw [entry tid nid i first, entry tid nid j second] at same
    exact ctxs.apart tid nid i j first second same
  case holder =>
    intro ctx tid live
    rw [life] at live
    obtain ⟨nid, i, holds, there⟩ := ctxs.holder ctx tid live
    exact ⟨nid, i, (holding tid nid i).mpr holds, (entry tid nid i holds).trans there⟩

/-- Replacing a node by one with the same entries leaves all entries as they are. -/
theorem entry_setNode_of_eq {nid : Nat} {node : Option XstatNode}
    (same : node.map (fun node => node.ctxs) = (s.xstatNodes nid).map fun node => node.ctxs)
    (other : Nat) (i : Fin xstatNcnt) : (s.setNode nid node).entry other i = s.entry other i := by
  unfold entry
  by_cases here : other = nid
  · subst here
    have mapped := congrArg (Option.map fun ctxs => ctxs i) same
    rw [Option.map_map, Option.map_map] at mapped
    show (Function.update s.xstatNodes other node other).map _ = _
    rw [Function.update_self]
    exact mapped
  · simp [setNode, here]

/-- A thread took a new context into entry `k` of its node. -/
theorem CtxInv.allocate (ctxs : CtxInv s) {tid nid : Nat} {k : Fin xstatNcnt}
    (old : ∀ t n i, s.Holding t n i → s'.Holding t n i ∧ s'.entry n i = s.entry n i)
    (new : ∀ t n i, s'.Holding t n i → s.Holding t n i ∨ t = tid ∧ n = nid ∧ i = k)
    (taken : s'.Holding tid nid k) (entry : s'.entry nid k = some (.perf s.nextCtx))
    (next : s'.nextCtx = s.nextCtx + 1)
    (born : s'.ctxLife s.nextCtx = some (.live tid))
    (life : ∀ ctx, ctx ≠ s.nextCtx → s'.ctxLife ctx = s.ctxLife ctx) : CtxInv s' := by
  have older : ∀ ctx t, s.ctxLife ctx = some (.live t) → ctx ≠ s.nextCtx := by
    rintro ctx t live rfl
    rw [ctxs.unborn _ (Nat.le_refl _)] at live
    cases live
  constructor
  case accepted =>
    intro ctx
    by_cases same : ctx = s.nextCtx
    · exact ⟨_, same ▸ born⟩
    · rw [life ctx same]
      exact ctxs.accepted ctx
  case unborn =>
    intro ctx above
    rw [life ctx (by omega)]
    exact ctxs.unborn ctx (by omega)
  case held =>
    intro t n i holding
    rcases new t n i holding with before | ⟨rfl, rfl, rfl⟩
    · obtain ⟨ctx, there, live⟩ := ctxs.held t n i before
      exact ⟨ctx, ((old t n i before).2).trans there, (life ctx (older ctx t live)).trans live⟩
    · exact ⟨_, entry, born⟩
  case apart =>
    have differ : ∀ n i, s.Holding tid n i → s'.entry n i ≠ some (.perf s.nextCtx) := by
      intro n i before same
      obtain ⟨ctx, there, live⟩ := ctxs.held tid n i before
      rw [(old tid n i before).2, there] at same
      cases same
      exact older _ tid live rfl
    intro t n i j first second same
    rcases new t n i first with before | ⟨rfl, rfl, rfl⟩
    · rcases new t n j second with before' | ⟨rfl, rfl, rfl⟩
      · rw [(old t n i before).2, (old t n j before').2] at same
        exact ctxs.apart t n i j before before' same
      · exact absurd (same.trans entry) (differ n i before)
    · rcases new t n j second with before' | ⟨_, _, rfl⟩
      · exact absurd (same.symm.trans entry) (differ n j before')
      · rfl
  case holder =>
    intro ctx t live
    by_cases same : ctx = s.nextCtx
    · rw [same, born] at live
      cases live
      exact ⟨nid, k, taken, same ▸ entry⟩
    · rw [life ctx same] at live
      obtain ⟨n, i, before, there⟩ := ctxs.holder ctx t live
      exact ⟨n, i, (old t n i before).1, (old t n i before).2.trans there⟩

/-- A thread released the context in entry `k` of its node. -/
theorem CtxInv.release (ctxs : CtxInv s) {tid nid ctx : Nat} {k : Fin xstatNcnt}
    (given : s.Holding tid nid k) (entry : s.entry nid k = some (.perf ctx))
    (holding : ∀ t n i, s'.Holding t n i ↔ s.Holding t n i ∧ ¬ (t = tid ∧ i = k))
    (entries : ∀ n i, s'.entry n i = s.entry n i) (next : s'.nextCtx = s.nextCtx)
    (gone : s'.ctxLife ctx = some .released)
    (life : ∀ other, other ≠ ctx → s'.ctxLife other = s.ctxLife other) : CtxInv s' := by
  have live := ctxs.live given entry
  constructor
  case accepted =>
    intro other
    by_cases same : other = ctx
    · exact ⟨_, same ▸ gone⟩
    · rw [life other same]
      exact ctxs.accepted other
  case unborn =>
    intro other above
    rw [next] at above
    have old := ctxs.unborn other above
    have apart : other ≠ ctx := by
      rintro rfl
      rw [live] at old
      cases old
    rw [life other apart, old]
  case held =>
    intro t n i holds
    obtain ⟨before, apart⟩ := (holding t n i).mp holds
    obtain ⟨other, there, alive⟩ := ctxs.held t n i before
    have differ : other ≠ ctx := by
      rintro rfl
      rw [live] at alive
      cases alive
      obtain rfl := before.sameNode given
      exact apart ⟨rfl, ctxs.apart _ n i k before given (there.trans entry.symm)⟩
    exact ⟨other, (entries n i).trans there, (life other differ).trans alive⟩
  case apart =>
    intro t n i j first second same
    rw [entries, entries] at same
    exact ctxs.apart t n i j ((holding t n i).mp first).1 ((holding t n j).mp second).1 same
  case holder =>
    intro other t alive
    by_cases same : other = ctx
    · rw [same, gone] at alive
      cases alive
    · rw [life other same] at alive
      obtain ⟨n, i, before, there⟩ := ctxs.holder other t alive
      refine ⟨n, i, (holding t n i).mpr ⟨before, ?_⟩, (entries n i).trans there⟩
      rintro ⟨rfl, rfl⟩
      obtain rfl := before.sameNode given
      rw [entry] at there
      cases there
      exact same rfl

/-- The step of a thread. -/
theorem CtxInv.sampler (ctxs : CtxInv s) (inv : CtrlInv maxNumnodes s) {tid : Nat} {input : Input}
    {th : Sampler} {after : ThreadStep} (thread : s.samplers tid = some th)
    (move : ThreadMove th.nid tid th.shouldStop s.nextCtx input th.pc
      (s.xstatNodes th.nid) after) :
    CtxInv { (s.setNode th.nid after.node).setSampler tid { th with pc := after.pc } with
      nextCtx := after.nextCtx, history := s.history ++ after.events } := by
  set s' : ModuleState := { (s.setNode th.nid after.node).setSampler tid { th with pc := after.pc } with
    nextCtx := after.nextCtx, history := s.history ++ after.events }
  have before : ∀ n i, s.Holding tid n i ↔ n = th.nid ∧ th.pc.Holds i ∧ IsPerf i :=
    fun _ _ => holding_iff thread
  have now : ∀ n i, s'.Holding tid n i ↔ n = th.nid ∧ after.pc.Holds i ∧ IsPerf i :=
    fun _ _ => holding_iff (s := s') (Function.update_self ..)
  have others : ∀ t n i, t ≠ tid → (s'.Holding t n i ↔ s.Holding t n i) :=
    fun _ _ _ other => holding_congr (Function.update_of_ne other _ _)
  have entryHere : ∀ i, s'.entry th.nid i = after.node.map fun node => node.ctxs i := by
    intro i
    show (Function.update s.xstatNodes th.nid after.node th.nid).map _ = _
    rw [Function.update_self]
  -- Another thread that holds something is on another node.
  have entryThere : ∀ t n i, t ≠ tid → s.Holding t n i → s'.entry n i = s.entry n i := by
    intro t n i other holding
    have elsewhere : n ≠ th.nid := by
      rintro rfl
      obtain ⟨th', found, samePlace, holds, _⟩ := holding
      exact other (inv.alive_unique found thread (alive_of_holds holds) move.kept.alive samePlace)
    show (Function.update s.xstatNodes th.nid after.node n).map _ = _
    rw [Function.update_of_ne elsewhere]
    rfl
  have life : ∀ ctx, s'.ctxLife ctx =
      (s.ctxLife ctx).bind fun phase => exec (ctxStep ctx) phase after.events :=
    fun ctx => exec_append _ _ _ _
  cases move.ctxEffect with
  | keep holds entries next events =>
    refine ctxs.of_same (fun ctx => ?_) next (fun t n i => ?_) fun t n i holding => ?_
    · obtain ⟨phase, read⟩ := ctxs.accepted ctx
      rw [life, read]
      rcases events with quiet | ⟨k, used, perf, held, entry, events⟩
      · exact exec_of_quiet quiet ctx phase
      · obtain ⟨own, there, live⟩ := ctxs.held tid th.nid k ((before _ k).mpr ⟨rfl, held, perf⟩)
        rw [show s.entry th.nid k = _ from entry] at there
        cases there
        by_cases same : used = ctx
        · subst same
          rw [read] at live
          cases live
          simp [events, exec, ctxStep]
        · simp [events, exec, ctxStep, same]
    · by_cases same : t = tid
      · subst same
        rw [before, now]
        exact and_congr_right fun _ => and_congr_left fun perf => holds i perf
      · exact others t n i same
    · by_cases same : t = tid
      · subst same
        obtain ⟨rfl, _, perf⟩ := (before n i).mp holding
        exact (entryHere i).trans (entries i perf)
      · exact entryThere t n i same holding
  | allocate k perf fresh holds entries there next events =>
    obtain ⟨rest, events, quiet⟩ := events
    have step : ∀ ctx, s'.ctxLife ctx =
        (s.ctxLife ctx).bind fun phase => ctxStep ctx phase (.perfInit s.nextCtx tid) := by
      intro ctx
      rw [life, events]
      exact congrArg _ (funext fun phase => exec_cons_of_quiet quiet ctx phase)
    refine ctxs.allocate (fun t n i holding => ?_) (fun t n i holding => ?_)
      ((now th.nid k).mpr ⟨rfl, (holds k).mpr (.inr rfl), perf⟩) ?_ next ?_ fun ctx other => ?_
    · by_cases same : t = tid
      · subst same
        obtain ⟨rfl, held, isPerf⟩ := (before n i).mp holding
        have apart : i ≠ k := fun same => fresh (same ▸ held)
        refine ⟨(now _ i).mpr ⟨rfl, (holds i).mpr (.inl held), isPerf⟩, ?_⟩
        rw [entryHere, entries]
        simp only [apart, if_false]
        rfl
      · exact ⟨(others t n i same).mpr holding, entryThere t n i same holding⟩
    · by_cases same : t = tid
      · subst same
        obtain ⟨rfl, held, isPerf⟩ := (now n i).mp holding
        rcases (holds i).mp held with old | new
        · exact .inl ((before _ i).mpr ⟨rfl, old, isPerf⟩)
        · exact .inr ⟨rfl, rfl, new⟩
      · exact .inl ((others t n i same).mp holding)
    · obtain ⟨node, here⟩ := Option.isSome_iff_exists.mp there
      rw [entryHere, entries, here]
      simp
    · rw [step, ctxs.unborn _ (Nat.le_refl _)]
      simp [ctxStep]
    · obtain ⟨phase, read⟩ := ctxs.accepted ctx
      rw [step, read]
      simp [ctxStep, Ne.symm other]
  | release k ctx perf held entry holds entries next events =>
    obtain ⟨rest, events, quiet⟩ := events
    have step : ∀ other, s'.ctxLife other =
        (s.ctxLife other).bind fun phase => ctxStep other phase (.perfExit ctx tid) := by
      intro other
      rw [life, events]
      exact congrArg _ (funext fun phase => exec_cons_of_quiet quiet other phase)
    have given : s.Holding tid th.nid k := (before _ k).mpr ⟨rfl, held, perf⟩
    have live := ctxs.live given entry
    refine ctxs.release given entry (fun t n i => ?_) (fun n i => ?_) next ?_ fun other apart => ?_
    · by_cases same : t = tid
      · subst same
        rw [now, before, holds]
        simp only [true_and]
        tauto
      · rw [others t n i same]
        simp [same]
    · show (Function.update s.xstatNodes th.nid after.node n).map _ = _
      rw [entries, Function.update_eq_self]
      rfl
    · rw [step, live]
      simp [ctxStep]
    · obtain ⟨phase, read⟩ := ctxs.accepted other
      rw [step, read]
      simp [ctxStep, Ne.symm apart]

theorem CtxInv.step (ctxs : CtxInv s) (inv : CtrlInv maxNumnodes s) {a : ModuleAction}
    (taken : s.step maxNumnodes a = some s') : CtxInv s' := by
  cases move_of_step taken with
  | ignored | last _ => exact ctxs
  | startBegins | stopBegins | startSkips | startEnds | stopSkips | stopFaults | stopEnds =>
    exact ctxs.of_same (fun _ => rfl) rfl (fun _ _ _ => Iff.rfl) fun _ _ _ _ => rfl
  | @starts i node here there =>
    refine ctxs.of_same (fun _ => rfl) rfl (fun tid nid k => ?_)
      fun _ other k _ => entry_setNode_of_eq (by rw [there]; rfl) other k
    by_cases new : tid = s.nextTid
    · subst new
      constructor
      · rintro ⟨th, found, _, holds, _⟩
        change Function.update s.samplers s.nextTid _ s.nextTid = some th at found
        rw [Function.update_self] at found
        cases found
        exact holds.elim
      · rintro ⟨th, found, _⟩
        rw [inv.unborn _ (Nat.le_refl _)] at found
        cases found
    · have same : Function.update s.samplers s.nextTid (some ⟨i, .created, false⟩) tid =
          s.samplers tid := Function.update_of_ne new _ _
      show (∃ th, Function.update s.samplers s.nextTid _ tid = some th ∧ _) ↔ _
      rw [same]
      rfl
  | startFails here there =>
    exact ctxs.of_same (fun _ => rfl) rfl (fun _ _ _ => Iff.rfl)
      fun _ other k _ => entry_setNode_of_eq (by rw [there]; rfl) other k
  | @stops i tid node th here there task thread =>
    refine ctxs.of_same (fun _ => rfl) rfl (fun t nid k => ?_) fun _ _ _ _ => rfl
    by_cases same : t = tid
    · subst same
      constructor
      · rintro ⟨th', found, home, holds, perf⟩
        change Function.update s.samplers t _ t = some th' at found
        rw [Function.update_self] at found
        cases found
        exact ⟨th, thread, home, holds, perf⟩
      · rintro ⟨th', found, home, holds, perf⟩
        rw [thread] at found
        cases found
        exact ⟨_, Function.update_self .., home, holds, perf⟩
    · have old : Function.update s.samplers tid (some { th with shouldStop := true }) t =
          s.samplers t := Function.update_of_ne same _ _
      show (∃ th, Function.update s.samplers tid _ t = some th ∧ _) ↔ _
      rw [old]
      rfl
  | joins here thread finished =>
    refine ctxs.of_same (fun _ => rfl) rfl (fun _ _ _ => Iff.rfl)
      fun _ other k _ => entry_setNode_of_eq ?_ other k
    rw [Option.map_map]
    rfl
  | sampler thread move => exact ctxs.sampler inv thread move
  | reset there =>
    refine ctxs.of_same (fun _ => rfl) rfl (fun _ _ _ => Iff.rfl)
      fun _ other k _ => entry_setNode_of_eq ?_ other k
    simp [there]
  | stat there =>
    refine ctxs.of_same (fun _ => rfl) rfl (fun _ _ _ => Iff.rfl)
      fun _ other k _ => entry_setNode_of_eq ?_ other k
    simp [there, (XstatNode.sameContexts_showStatAttr _).ctxs_eq]

end CtxSteps

/-! ### Runs -/

/-- What every state of every run satisfies, whichever creations fail. -/
structure ModuleInv (maxNumnodes : Nat) (s : ModuleState) : Prop where
  ctrl : CtrlInv maxNumnodes s
  life : LifeInv s
  ctxs : CtxInv s

theorem moduleInv_xstatInit (maxNumnodes : Nat) (nodeOnline : Nat → Bool) :
    ModuleInv maxNumnodes (xstatInit maxNumnodes nodeOnline) :=
  ⟨ctrlInv_xstatInit .., lifeInv_xstatInit maxNumnodes nodeOnline, ctxInv_xstatInit ..⟩

theorem ModuleInv.step {maxNumnodes : Nat} {s s' : ModuleState} (inv : ModuleInv maxNumnodes s)
    {a : ModuleAction} (taken : s.step maxNumnodes a = some s') : ModuleInv maxNumnodes s' :=
  ⟨inv.ctrl.step taken, inv.life.step inv.ctrl taken, inv.ctxs.step inv.ctrl taken⟩

/-- **Samplers and contexts.** In every state of every run in which all threads could be created,
whatever is written to ctrl and however the threads' steps fall: a node has at most one living
sampler, one exactly while the flag is set, and none once `stop_stat` has completed; its
`init_counters` and `exit_counters` alternate, each pair made by one thread; and a perf context is
read only between its allocation and its one release, by the thread that allocated it, which does not
return before the release. -/
theorem sampler_life_cycle {maxNumnodes : Nat} {nodeOnline : Nat → Bool}
    {trace : List (ModuleState × ModuleAction)} {s : ModuleState}
    (run : Run (ModuleState.step maxNumnodes) (xstatInit maxNumnodes nodeOnline) trace s)
    (creates : ∀ x ∈ trace, x.2 ≠ .startStat false) :
    (∀ t t' th th', s.samplers t = some th → s.samplers t' = some th' → th.pc.Alive →
      th'.pc.Alive → th.nid = th'.nid → t = t') ∧
    (s.ctrl = .free → ∀ nid node, s.xstatNodes nid = some node →
      (s.ctrlOn = true ↔ ∃ tid th, s.samplers tid = some th ∧ th.nid = nid ∧ th.pc.Alive)) ∧
    (s.ctrl = .free → s.ctrlOn = false → ∀ tid th, s.samplers tid = some th → ¬ th.pc.Alive) ∧
    (∀ nid, ∃ phase, s.nodeLife nid = some phase) ∧
    (∀ ctx, ∃ phase, s.ctxLife ctx = some phase ∧
      ∀ tid, phase = .live tid → ∃ th, s.samplers tid = some th ∧ th.pc.Alive) := by
  obtain ⟨inv, running⟩ := run.invariant (P := fun s => ModuleInv maxNumnodes s ∧ RunningInv s)
    (fun _ a => a ≠ .startStat false)
    ⟨moduleInv_xstatInit maxNumnodes nodeOnline, runningInv_xstatInit maxNumnodes nodeOnline⟩
    (fun _ _ _ before created taken =>
      ⟨before.1.step taken, before.2.step before.1.ctrl created taken⟩) creates
  refine ⟨fun t t' th th' => inv.ctrl.alive_unique, fun free nid node there => ?_, ?_, ?_, ?_⟩
  · exact running.alive_iff inv.ctrl free there
  · intro free off tid th thread alive
    have lock := inv.ctrl.lock
    rw [free] at lock
    exact lock off th.nid tid (inv.ctrl.owned tid th thread alive)
  · exact fun nid => ⟨_, inv.life nid⟩
  · intro ctx
    obtain ⟨phase, read⟩ := inv.ctxs.accepted ctx
    refine ⟨phase, read, ?_⟩
    rintro tid rfl
    obtain ⟨nid, i, ⟨th, thread, _, holds, _⟩, _⟩ := inv.ctxs.holder ctx tid read
    exact ⟨th, thread, alive_of_holds holds⟩

/-- A node is switched on, and its sampler makes `count` steps, by a clock that counts them. -/
def switchedOn (count : Nat) : List ModuleAction :=
  [.storeCtrlAttr "on".toList, .startStat true, .startStat true] ++
    (List.range count).map fun k => .sampler 0 { (default : Input) with now := BitVec.ofNat 64 k }

theorem switchedOn_creates (count : Nat) : ∀ a ∈ switchedOn count, a ≠ .startStat false := by
  intro a member
  rcases List.mem_append.mp member with start | later
  · simp only [List.mem_cons, List.not_mem_nil, or_false] at start
    rcases start with rfl | rfl | rfl <;> simp
  · obtain ⟨k, _, rfl⟩ := List.mem_map.mp later
    simp

/-- A node sampled twice: its sampler lives, and each of the contexts allocated is its own. -/
theorem sampler_life_cycle_switched_on :
    ∃ trace s, Run (ModuleState.step 1) (xstatInit 1 fun _ => true) trace s ∧
      s.ctrlOn = true ∧ s.nextCtx = 7 ∧
      (∃ tid th, s.samplers tid = some th ∧ th.nid = 0 ∧ th.pc.Alive) ∧
      (∀ nid, ∃ phase, s.nodeLife nid = some phase) ∧ ∀ ctx, ∃ phase, s.ctxLife ctx = some phase := by
  have done : (exec (ModuleState.step 1) (xstatInit 1 fun _ => true) (switchedOn 58)).any fun s =>
      s.ctrlOn && s.nextCtx == 7 && s.ctrl == .free && (s.xstatNodes 0).isSome := by decide +kernel
  obtain ⟨trace, s, run, same, passed⟩ := run_of_exec_any done
  simp only [Bool.and_eq_true, beq_iff_eq] at passed
  obtain ⟨⟨⟨on, contexts⟩, free⟩, some⟩ := passed
  obtain ⟨node, there⟩ := Option.isSome_iff_exists.mp some
  have creates : ∀ x ∈ trace, x.2 ≠ .startStat false := fun x member =>
    switchedOn_creates 58 x.2 (same ▸ List.mem_map_of_mem member)
  obtain ⟨_, alive, _, life, ctxs⟩ := sampler_life_cycle run creates
  exact ⟨trace, s, run, on, contexts, (alive free 0 node there).mp on, life,
    fun ctx => (ctxs ctx).imp fun _ => And.left⟩

end Xstats.Xstat
