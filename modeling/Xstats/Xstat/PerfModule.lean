/-
**The xstat module with its perf contexts** (`xstat.c`, `hpc_cnt.c`).

The module's steps name the contexts that they allocate, read and free; here those contexts have their
entries, and the sum that a step takes for the result of `perf_restart` is the one that `perf_restart`
forms of what the kernel returns. Hardware and kernel are the environment: when an event was created,
and what it counted since, on a machine that multiplexes nothing and whose CPUs do not change. Every step
is made at an instant, and a pass over the entries of a context comes to each CPU at an instant of its
own.

* `perfEffect_of_step`: what a step does to the contexts that the nodes hold.
* `Held.unique`: a context is held in one entry.
-/

import Xstats.Hardware
import Xstats.Xstat.Lifecycle
import Xstats.Xstat.PerfContext

namespace Xstats.Xstat

open Transition ModuleState PerfCounterContext

/-! ### What a step does to a context -/

/-- A call through `init`, `restart` or `exit` that uses a perf context. -/
inductive PerfWork
  | init (nid : Nat) (i : Fin xstatNcnt)
  | restart (nid : Nat) (i : Fin xstatNcnt) (ctx : Nat)
  | exit (ctx : Nat)
  deriving DecidableEq, Repr

namespace ModuleState

/-- The perf context whose address is in an entry. -/
def ctxAt (s : ModuleState) (nid : Nat) (i : Fin xstatNcnt) : Option Nat :=
  (s.entry nid i).bind perfCtx

/-- The call that a thread at its place makes. -/
def workAt (s : ModuleState) (nid : Nat) : SamplerPc → Option PerfWork
  | .initCounters i => if (nodeCounters i).init = some .perfInit then some (.init nid i) else none
  | .restart i =>
    if (nodeCounters i).restart = .perfRestart then (s.ctxAt nid i).map (.restart nid i) else none
  | .exitCounters i =>
    if (nodeCounters i).exit = some .perfExit then (s.ctxAt nid i).map .exit else none
  | _ => none

/-- The call that an action makes. -/
def perfWork (s : ModuleState) : ModuleAction → Option PerfWork
  | .sampler tid _ => (s.samplers tid).bind fun th => s.workAt th.nid th.pc
  | _ => none

/-- A living thread of the node holds the context in entry `i`. -/
def Held (s : ModuleState) (nid : Nat) (i : Fin xstatNcnt) (ctx : Nat) : Prop :=
  ∃ tid, s.Holding tid nid i ∧ s.entry nid i = some (.perf ctx)

end ModuleState

section Held

variable {maxNumnodes : Nat} {s s' : ModuleState}

/-- A context that is held has been allocated. -/
theorem Held.lt (ctxs : CtxInv s) {nid : Nat} {i : Fin xstatNcnt} {ctx : Nat} (held : s.Held nid i ctx) :
    ctx < s.nextCtx := by
  obtain ⟨tid, holding, entry⟩ := held
  by_contra beyond
  have live := ctxs.live holding entry
  rw [ctxs.unborn ctx (not_lt.mp beyond)] at live
  cases live

/-- A context is held in one entry. -/
theorem Held.unique (ctxs : CtxInv s) {nid nid' : Nat} {i i' : Fin xstatNcnt} {ctx : Nat}
    (held : s.Held nid i ctx) (held' : s.Held nid' i' ctx) : nid = nid' ∧ i = i' := by
  obtain ⟨tid, holding, entry⟩ := held
  obtain ⟨tid', holding', entry'⟩ := held'
  have same : tid = tid' := by
    have live := ctxs.live holding entry
    rw [ctxs.live holding' entry'] at live
    cases live
    rfl
  subst same
  obtain rfl := holding.sameNode holding'
  exact ⟨rfl, ctxs.apart tid nid i i' holding holding' (entry.trans entry'.symm)⟩

end Held

/-! ### The step of a thread -/

/-- What a thread's step does to the contexts of its node, with the call that it makes. -/
inductive ThreadPerf (nid nextCtx : Nat) (pc : SamplerPc) (node : Option XstatNode) (after : ThreadStep) :
    Option PerfWork → Prop
  | quiet (next : after.nextCtx = nextCtx)
      (held : ∀ i ctx, IsPerf i → after.pc.Holds i →
        after.node.map (fun node => node.ctxs i) = some (.perf ctx) →
        pc.Holds i ∧ node.map (fun node => node.ctxs i) = some (.perf ctx)) :
      ThreadPerf nid nextCtx pc node after none
  | init (k : Fin xstatNcnt) (next : after.nextCtx = nextCtx + 1)
      (held : ∀ i ctx, IsPerf i → after.pc.Holds i →
        after.node.map (fun node => node.ctxs i) = some (.perf ctx) →
        (pc.Holds i ∧ node.map (fun node => node.ctxs i) = some (.perf ctx)) ∨ i = k ∧ ctx = nextCtx) :
      ThreadPerf nid nextCtx pc node after (some (.init nid k))
  | restart (k : Fin xstatNcnt) (ctx : Nat) (perf : IsPerf k) (next : after.nextCtx = nextCtx)
      (own : pc.Holds k ∧ node.map (fun node => node.ctxs k) = some (.perf ctx))
      (held : ∀ i ctx, IsPerf i → after.pc.Holds i →
        after.node.map (fun node => node.ctxs i) = some (.perf ctx) →
        pc.Holds i ∧ node.map (fun node => node.ctxs i) = some (.perf ctx)) :
      ThreadPerf nid nextCtx pc node after (some (.restart nid k ctx))
  | exit (k : Fin xstatNcnt) (ctx : Nat) (perf : IsPerf k) (next : after.nextCtx = nextCtx)
      (own : pc.Holds k ∧ node.map (fun node => node.ctxs k) = some (.perf ctx))
      (held : ∀ i ctx, IsPerf i → after.pc.Holds i →
        after.node.map (fun node => node.ctxs i) = some (.perf ctx) →
        (pc.Holds i ∧ node.map (fun node => node.ctxs i) = some (.perf ctx)) ∧ i ≠ k) :
      ThreadPerf nid nextCtx pc node after (some (.exit ctx))

theorem isPerf_of_restart {i : Fin xstatNcnt} (restart : (nodeCounters i).restart = .perfRestart) :
    IsPerf i := by
  have all : ∀ i, (nodeCounters i).restart = .perfRestart →
      (nodeCounters i).init = some .perfInit := by decide
  exact all i restart

theorem set_of_isPerf {i : Fin xstatNcnt} (perf : IsPerf i) : (nodeCounters i).init.isSome := by
  rw [show (nodeCounters i).init = _ from perf]
  rfl

/-- A step that leaves the perf entries as they are and gives the thread no new one. -/
theorem held_of_same {pc : SamplerPc} {node : Option XstatNode} {after : ThreadStep}
    (holds : ∀ i, IsPerf i → after.pc.Holds i → pc.Holds i)
    (entries : ∀ i, IsPerf i →
      after.node.map (fun node => node.ctxs i) = node.map fun node => node.ctxs i) :
    ∀ i ctx, IsPerf i → after.pc.Holds i →
      after.node.map (fun node => node.ctxs i) = some (.perf ctx) →
      pc.Holds i ∧ node.map (fun node => node.ctxs i) = some (.perf ctx) :=
  fun i _ perf held entry => ⟨holds i perf held, (entries i perf).symm.trans entry⟩

/-- The step of a thread. -/
theorem ThreadMove.perf {s : ModuleState} {nid tid nextCtx : Nat} {shouldStop : Bool}
    {input : Input} {pc : SamplerPc} {after : ThreadStep}
    (move : ThreadMove nid tid shouldStop nextCtx input pc (s.xstatNodes nid) after) :
    ThreadPerf nid nextCtx pc (s.xstatNodes nid) after (s.workAt nid pc) := by
  generalize there : s.xstatNodes nid = node at move
  have own : ∀ i ctx, node.map (fun node => node.ctxs i) = some (.perf ctx) →
      s.ctxAt nid i = some ctx := by
    intro i ctx entry
    rw [ctxAt, ModuleState.entry, there, entry]
    rfl
  cases move with
  | run | cancel =>
    exact .quiet rfl (held_of_same (fun i _ holds => by simp [SamplerPc.Holds] at holds) fun _ _ => rfl)
  | afterRoll | sleep | wake | again =>
    exact .quiet rfl (held_of_same (fun _ _ _ => trivial) fun _ _ => rfl)
  | commit =>
    exact .quiet rfl (held_of_same (fun _ _ _ => trivial) fun _ _ => by simp)
  | leave check =>
    rcases check with rfl | rfl <;>
      exact .quiet rfl (held_of_same (fun _ _ _ => trivial) fun _ _ => rfl)
  | @initPerf node k perf =>
    rw [workAt, if_pos perf]
    refine .init k rfl fun i ctx isPerf holds entry => ?_
    simp only [Option.map_some, XstatNode.ctxs_initCounter, XstatNode.initSlot, perf,
      Function.update_apply, Option.some.injEq] at entry
    rcases (holds_afterInit nid tid i k).mp holds with old | rfl
    · rw [if_neg (ne_of_lt old)] at entry
      exact .inl ⟨old, congrArg some entry⟩
    · rw [if_pos rfl, Slot.perf.injEq] at entry
      exact .inr ⟨rfl, entry.symm⟩
  | @init node k other =>
    have apart : ∀ i, IsPerf i → i ≠ k := fun i perf same => other (same ▸ perf)
    rw [workAt, if_neg other]
    refine .quiet rfl (held_of_same (fun i perf holds => ?_) fun i perf => ?_)
    · exact ((holds_afterInit nid tid i k).mp holds).resolve_right (apart i perf)
    · simp [XstatNode.ctxs_initCounter, apart i perf]
  | @restartPerf node node' k ctx perf entry done =>
    have here : (some node).map (fun node => node.ctxs k) = some (.perf ctx) := congrArg some entry
    rw [workAt, if_pos perf, own k ctx here]
    refine .restart k ctx (isPerf_of_restart perf) rfl ⟨trivial, here⟩
      (held_of_same (fun _ _ _ => trivial) fun i isPerf => ?_)
    exact congrArg some ((XstatNode.restartCounter_spec done).ctxs_eq i (set_of_isPerf isPerf))
  | @restart node node' k other done =>
    rw [workAt, if_neg other]
    refine .quiet rfl (held_of_same (fun _ _ _ => trivial) fun i isPerf => ?_)
    exact congrArg some ((XstatNode.restartCounter_spec done).ctxs_eq i (set_of_isPerf isPerf))
  | @exitPerf node k ctx perf entry =>
    have here : (some node).map (fun node => node.ctxs k) = some (.perf ctx) := congrArg some entry
    rw [workAt, if_pos perf, own k ctx here]
    refine .exit k ctx ((exit_iff_perfInit k).mp perf) rfl ⟨Fin.le_refl k, here⟩
      fun i c isPerf holds entry => ?_
    obtain ⟨later, apart⟩ := (holds_afterExit nid tid i k).mp holds
    exact ⟨⟨later, entry⟩, apart⟩
  | @exit node k other =>
    rw [workAt, if_neg other]
    refine .quiet rfl (held_of_same (fun i perf holds => ?_) fun _ _ => rfl)
    exact ((holds_afterExit nid tid i k).mp holds).1

/-! ### The steps of the module -/

/-- What a step does to the contexts that are held, with the call that it makes. -/
inductive PerfEffect (s s' : ModuleState) : Option PerfWork → Prop
  | quiet (next : s'.nextCtx = s.nextCtx) (held : ∀ n i c, s'.Held n i c → s.Held n i c) :
      PerfEffect s s' none
  | init (nid : Nat) (k : Fin xstatNcnt) (next : s'.nextCtx = s.nextCtx + 1)
      (held : ∀ n i c, s'.Held n i c → s.Held n i c ∨ n = nid ∧ i = k ∧ c = s.nextCtx) :
      PerfEffect s s' (some (.init nid k))
  | restart (nid : Nat) (k : Fin xstatNcnt) (ctx : Nat) (next : s'.nextCtx = s.nextCtx)
      (own : s.Held nid k ctx) (held : ∀ n i c, s'.Held n i c → s.Held n i c) :
      PerfEffect s s' (some (.restart nid k ctx))
  | exit (nid : Nat) (k : Fin xstatNcnt) (ctx : Nat) (next : s'.nextCtx = s.nextCtx)
      (own : s.Held nid k ctx)
      (held : ∀ n i c, s'.Held n i c → s.Held n i c ∧ ¬(n = nid ∧ i = k)) :
      PerfEffect s s' (some (.exit ctx))

section Steps

variable {maxNumnodes : Nat} {s s' : ModuleState}

/-- The contexts held after a thread's step: those of other nodes, and those of the thread. -/
theorem held_of_thread (inv : CtrlInv maxNumnodes s) {tid : Nat} {th : Sampler} {after : ThreadStep}
    (thread : s.samplers tid = some th) (alive : th.pc.Alive)
    (nodes : s'.xstatNodes = Function.update s.xstatNodes th.nid after.node)
    (samplers : s'.samplers = Function.update s.samplers tid (some { th with pc := after.pc }))
    {n : Nat} {i : Fin xstatNcnt} {c : Nat} (held : s'.Held n i c) :
    (n ≠ th.nid ∧ s.Held n i c) ∨ (n = th.nid ∧ IsPerf i ∧ after.pc.Holds i ∧
      after.node.map (fun node => node.ctxs i) = some (.perf c)) := by
  obtain ⟨t, ⟨th', found, home, holds, perf⟩, entry⟩ := held
  rw [ModuleState.entry, nodes] at entry
  rw [samplers] at found
  by_cases own : t = tid
  · subst own
    rw [Function.update_self] at found
    cases found
    change th.nid = n at home
    subst home
    rw [Function.update_self] at entry
    exact .inr ⟨rfl, perf, holds, entry⟩
  · rw [Function.update_of_ne own] at found
    have elsewhere : n ≠ th.nid := by
      rintro rfl
      exact own (inv.alive_unique found thread (alive_of_holds holds) alive home)
    rw [Function.update_of_ne elsewhere] at entry
    exact .inl ⟨elsewhere, t, ⟨th', found, home, holds, perf⟩, entry⟩

theorem perfEffect_of_step (inv : CtrlInv maxNumnodes s) {a : ModuleAction}
    (taken : s.step maxNumnodes a = some s') : PerfEffect s s' (s.perfWork a) := by
  by_cases thread : ∃ tid input, a = .sampler tid input
  · obtain ⟨tid, input, rfl⟩ := thread
    cases move_of_step taken with
    | @sampler _ _ th after thread move =>
      set s' : ModuleState := { (s.setNode th.nid after.node).setSampler tid { th with pc := after.pc }
        with nextCtx := after.nextCtx
             history := s.history ++ after.events }
      have parts : ∀ {n i c}, s'.Held n i c →
          (n ≠ th.nid ∧ s.Held n i c) ∨ (n = th.nid ∧ IsPerf i ∧ after.pc.Holds i ∧
            after.node.map (fun node => node.ctxs i) = some (.perf c)) :=
        fun here => held_of_thread inv thread move.kept.alive rfl rfl here
      have work : s.perfWork (.sampler tid input) = s.workAt th.nid th.pc := by
        simp only [perfWork, thread, Option.bind_some]
      have mine : ∀ i c, IsPerf i → th.pc.Holds i ∧
          (s.xstatNodes th.nid).map (fun node => node.ctxs i) = some (.perf c) → s.Held th.nid i c :=
        fun i c perf both => ⟨tid, ⟨th, thread, rfl, both.1, perf⟩, both.2⟩
      have effect := move.perf
      rw [work]
      generalize s.workAt th.nid th.pc = made at effect
      cases effect with
      | quiet next held =>
        refine .quiet next fun n i c here => ?_
        rcases parts here with ⟨_, old⟩ | ⟨rfl, perf, holds, entry⟩
        · exact old
        · exact mine i c perf (held i c perf holds entry)
      | init k next held =>
        refine .init th.nid k next fun n i c here => ?_
        rcases parts here with ⟨_, old⟩ | ⟨rfl, perf, holds, entry⟩
        · exact .inl old
        · exact (held i c perf holds entry).imp (mine i c perf) fun new => ⟨rfl, new⟩
      | restart k ctx perf next own held =>
        refine .restart th.nid k ctx next (mine k ctx perf own) fun n i c here => ?_
        rcases parts here with ⟨_, old⟩ | ⟨rfl, perf, holds, entry⟩
        · exact old
        · exact mine i c perf (held i c perf holds entry)
      | exit k ctx perf next own held =>
        refine .exit th.nid k ctx next (mine k ctx perf own) fun n i c here => ?_
        rcases parts here with ⟨elsewhere, old⟩ | ⟨rfl, perf, holds, entry⟩
        · exact ⟨old, fun both => elsewhere both.1⟩
        · obtain ⟨old, apart⟩ := held i c perf holds entry
          exact ⟨mine i c perf old, fun both => apart both.2⟩
  · have other : ∀ tid input, a ≠ .sampler tid input := fun tid input is => thread ⟨tid, input, is⟩
    have none : s.perfWork a = none := by
      cases a with
      | sampler tid input => exact absurd rfl (other tid input)
      | _ => rfl
    have next : s'.nextCtx = s.nextCtx := by
      cases move_of_step taken with
      | sampler => exact absurd rfl (other _ _)
      | _ => rfl
    rw [none]
    refine .quiet next fun n i c held => ?_
    obtain ⟨tid, ⟨th', found, home, holds, perf⟩, entry⟩ := held
    rcases place_of_step taken other found with ⟨th, thread, sameHome, pc⟩ | new
    · obtain ⟨node', there, entry⟩ := Option.map_eq_some_iff.mp entry
      obtain ⟨node, before, move⟩ := nodeMove_of_step taken other there
      refine ⟨tid, ⟨th, thread, sameHome.symm.trans home, pc ▸ holds, perf⟩, ?_⟩
      rw [ModuleState.entry, before, Option.map_some, ← move.sameContexts.1, entry]
    · rw [new] at holds
      exact holds.elim

end Steps

/-! ### The module and its contexts -/

/-- The config of a perf counter. -/
def perfConfig (i : Fin xstatNcnt) : PerfEventConfig :=
  match (nodeCounters i).data with
  | .perf config => config
  | _ => ⟨0, 0⟩

/-- A call of `perf_restart`: of which context, when its events were created, when the loop came to
each CPU, and what was returned. -/
structure PerfCall (nrCpuIds : Nat) where
  ctx : Nat
  born : Fin nrCpuIds → Option Word
  instant : Fin nrCpuIds → Word
  result : Word

/-- The module with the contexts that it allocated, by their names. `born` is the kernel's: when it
created the events of a context. `calls` is a ghost: the calls of `perf_restart` so far for a node's
counter, oldest first. -/
structure PerfState (nrCpuIds : Nat) where
  module : ModuleState
  contexts : Nat → Option (PerfCounterContext (KernelEvent nrCpuIds))
  born : Nat → Fin nrCpuIds → Option Word
  clock : Word
  calls : Nat → Fin xstatNcnt → List (PerfCall nrCpuIds)

/-- A step of the module, with what the environment adds: until when it lasted, when it came to each CPU,
and for which CPUs an event could be created. -/
structure PerfAction (nrCpuIds : Nat) where
  action : ModuleAction
  now : Word
  instant : Fin nrCpuIds → Word
  creates : Fin nrCpuIds → Bool

/-- The step takes `total` for the sum of a perf context. -/
def PerfAction.withTotal {nrCpuIds : Nat} (a : PerfAction nrCpuIds) (total : Word) : ModuleAction :=
  match a.action with
  | .sampler tid input => .sampler tid { input with total := total }
  | action => action

theorem PerfAction.withTotal_eq {nrCpuIds : Nat} {a : PerfAction nrCpuIds} {total : Word} {tid : Nat}
    {input : Input} (action : a.withTotal total = .sampler tid input) :
    input.total = total ∧ ∃ given, a.action = .sampler tid given ∧ input.now = given.now := by
  unfold PerfAction.withTotal at action
  split at action
  · next given is =>
    cases action
    exact ⟨rfl, given, is, rfl⟩
  · next other => exact absurd action (other tid input)

/-- The calls after one more for a node's counter. -/
theorem update_calls {α : Type} (calls : Nat → Fin xstatNcnt → List α) (nid : Nat) (i : Fin xstatNcnt)
    (l : List α) (n : Nat) (j : Fin xstatNcnt) :
    Function.update calls nid (Function.update (calls nid) i l) n j =
      if n = nid ∧ j = i then l else calls n j := by
  by_cases home : n = nid
  · subst home
    rw [Function.update_self, Function.update_apply]
    simp
  · rw [Function.update_of_ne home, if_neg fun both => home both.1]

/-- What an environment consists of: the nodes' CPUs, and the events of each perf counter. -/
structure Machine where
  maxNumnodes : Nat
  nodeOnline : Nat → Bool
  nrCpuIds : Nat
  mask : Nat → CpuMask nrCpuIds
  hardware : Hardware (Fin xstatNcnt) nrCpuIds

namespace PerfState

variable (ρ : Rounding) (m : Machine)

/-- The state that `xstat_init` leaves. -/
def start : PerfState m.nrCpuIds :=
  { module := xstatInit m.maxNumnodes m.nodeOnline, contexts := fun _ => none, born := fun _ _ => none
    clock := 0, calls := fun _ _ => [] }

variable {m}

/-- When the kernel creates the events of a context: those of the mask's CPUs that it can create. -/
def bornIn (a : PerfAction m.nrCpuIds) (nid : Nat) (cpu : Fin m.nrCpuIds) : Option Word :=
  if cpu ∈ m.mask nid ∧ a.creates cpu then some (a.instant cpu) else none

/-- What the kernel returns of an event of counter `i` at an instant. -/
def readEvent (s : PerfState m.nrCpuIds) (i : Fin xstatNcnt) (instant : Fin m.nrCpuIds → Word)
    (event : KernelEvent m.nrCpuIds) : PerfEventValue :=
  match s.born event.ctx event.cpu with
  | some born => m.hardware.read i event.cpu born (instant event.cpu)
  | none => .zero

/-- The step goes on from where the clock stands. -/
def Timely (s : PerfState m.nrCpuIds) (a : PerfAction m.nrCpuIds) : Prop :=
  s.clock ≤ a.now ∧ ∀ cpu, s.clock ≤ a.instant cpu ∧ a.instant cpu ≤ a.now

instance (s : PerfState m.nrCpuIds) (a : PerfAction m.nrCpuIds) : Decidable (Timely s a) :=
  inferInstanceAs (Decidable (_ ∧ _))

/-- The module's own part of a step. -/
def moduleStep (s : PerfState m.nrCpuIds) (a : PerfAction m.nrCpuIds) (total : Word) :
    Option (PerfState m.nrCpuIds) :=
  (s.module.step m.maxNumnodes (a.withTotal total)).map fun module => { s with module, clock := a.now }

/-- A step that allocates a context: `perf_init`. -/
def initStep (s : PerfState m.nrCpuIds) (a : PerfAction m.nrCpuIds) (nid : Nat) (i : Fin xstatNcnt) :
    Option (PerfState m.nrCpuIds) :=
  let ctx := s.module.nextCtx
  let context := perfInit (fun _ => KernelEvent.create ctx a.creates) (m.mask nid) (perfConfig i)
  (s.moduleStep a 0).map fun s' => { s' with
    contexts := Function.update s.contexts ctx (some context)
    born := Function.update s.born ctx (bornIn a nid) }

/-- A step that reads a context: `perf_restart`, whose result the module's step takes. -/
def restartStep (s : PerfState m.nrCpuIds) (a : PerfAction m.nrCpuIds) (nid : Nat) (i : Fin xstatNcnt)
    (ctx : Nat) : Option (PerfState m.nrCpuIds) := do
  let context ← s.contexts ctx
  let (context, total) := context.perfRestart ρ (s.readEvent i a.instant)
  let s' ← s.moduleStep a total
  return { s' with
    contexts := Function.update s.contexts ctx (some context)
    calls := Function.update s.calls nid (Function.update (s.calls nid) i
      (s.calls nid i ++ [⟨ctx, s.born ctx, a.instant, total⟩])) }

/-- A step that frees a context: `perf_exit`. -/
def exitStep (s : PerfState m.nrCpuIds) (a : PerfAction m.nrCpuIds) (ctx : Nat) :
    Option (PerfState m.nrCpuIds) :=
  (s.moduleStep a 0).map fun s' => { s' with contexts := Function.update s.contexts ctx none }

/-- The step function. -/
def step (s : PerfState m.nrCpuIds) (a : PerfAction m.nrCpuIds) : Option (PerfState m.nrCpuIds) :=
  if Timely s a then
    match s.module.perfWork a.action with
    | none => s.moduleStep a 0
    | some (.init nid i) => s.initStep a nid i
    | some (.restart nid i ctx) => s.restartStep ρ a nid i ctx
    | some (.exit ctx) => s.exitStep a ctx
  else none

/-- By how much the events went up that a step reads. -/
def increments (s : PerfState m.nrCpuIds) (a : PerfAction m.nrCpuIds) : List Nat :=
  match s.module.perfWork a.action with
  | some (.restart _ i ctx) =>
    ((s.contexts ctx).map fun context => context.events.filterMap fun entry =>
      entry.event.map fun event =>
        ((s.readEvent i a.instant event).total - entry.value.total).toNat).getD []
  | _ => []

/-- The steps, one constructor for each kind of call. -/
inductive Move (s : PerfState m.nrCpuIds) (a : PerfAction m.nrCpuIds) : PerfState m.nrCpuIds → Prop
  | quiet {module} (work : s.module.perfWork a.action = none)
      (step : s.module.step m.maxNumnodes (a.withTotal 0) = some module) :
      Move s a { s with module, clock := a.now }
  | init {module nid i} (work : s.module.perfWork a.action = some (.init nid i))
      (step : s.module.step m.maxNumnodes (a.withTotal 0) = some module) :
      Move s a { s with
        module, clock := a.now
        contexts := Function.update s.contexts s.module.nextCtx
          (some (perfInit (fun _ => KernelEvent.create s.module.nextCtx a.creates) (m.mask nid)
            (perfConfig i)))
        born := Function.update s.born s.module.nextCtx (bornIn a nid) }
  | restart {module nid i ctx context} (work : s.module.perfWork a.action = some (.restart nid i ctx))
      (there : s.contexts ctx = some context)
      (step : s.module.step m.maxNumnodes
        (a.withTotal (context.perfRestart ρ (s.readEvent i a.instant)).2) = some module) :
      Move s a { s with
        module, clock := a.now
        contexts := Function.update s.contexts ctx
          (some (context.perfRestart ρ (s.readEvent i a.instant)).1)
        calls := Function.update s.calls nid (Function.update (s.calls nid) i (s.calls nid i ++
          [⟨ctx, s.born ctx, a.instant, (context.perfRestart ρ (s.readEvent i a.instant)).2⟩])) }
  | exit {module ctx} (work : s.module.perfWork a.action = some (.exit ctx))
      (step : s.module.step m.maxNumnodes (a.withTotal 0) = some module) :
      Move s a { s with module, clock := a.now, contexts := Function.update s.contexts ctx none }

theorem move_of_step {s s' : PerfState m.nrCpuIds} {a : PerfAction m.nrCpuIds}
    (taken : s.step ρ a = some s') : Timely s a ∧ Move ρ s a s' := by
  obtain ⟨timely, rest⟩ := Option.ite_none_right_eq_some.mp taken
  refine ⟨timely, ?_⟩
  cases work : s.module.perfWork a.action with
  | none =>
    simp only [work] at rest
    obtain ⟨module, step, rfl⟩ := Option.map_eq_some_iff.mp rest
    exact .quiet work step
  | some call =>
    cases call with
    | init nid i =>
      simp only [work, initStep, moduleStep, Option.map_map] at rest
      obtain ⟨module, step, rfl⟩ := Option.map_eq_some_iff.mp rest
      exact .init work step
    | restart nid i ctx =>
      simp only [work, restartStep, moduleStep, Option.bind_eq_bind, Option.bind_eq_some_iff,
        Option.map_eq_some_iff] at rest
      obtain ⟨context, there, _, ⟨module, step, rfl⟩, ends⟩ := rest
      cases ends
      exact .restart work there step
    | exit ctx =>
      simp only [work, exitStep, moduleStep, Option.map_map] at rest
      obtain ⟨module, step, rfl⟩ := Option.map_eq_some_iff.mp rest
      exact .exit work step

/-- What a step reads of clock and events does not decide which call it makes. -/
theorem perfWork_withTotal (s : ModuleState) {n : Nat} (a : PerfAction n) (total : Word) :
    s.perfWork (a.withTotal total) = s.perfWork a.action := by
  unfold PerfAction.withTotal
  split
  · next action => rw [action]; rfl
  · rfl

end PerfState

end Xstats.Xstat
