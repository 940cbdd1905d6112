/-
**Perf contexts and CPU hotplug** (`hpc_cnt.c`).

A perf context keeps a pointer to the node's mask, which the kernel changes when a CPU comes online or
goes offline. `perf_init` takes the number of entries from the mask once; the loops of `perf_restart`
and `perf_exit` ask for the mask's weight again before every iteration. Here the mask may change between
any two iterations, and one counter of a node goes through any number of contexts.

What is asked of a run stands in its `history`: the indices used, and for each call that returned the
events it went through beside those that `perf_init` created.

* `PerfInv.step`: what an iteration keeps, and when it keeps the history in step.
* `perf_in_step_iff`: when a whole run is in step, in terms of the weights that its loops find.
* `perf_in_step_of_weight`: so it is where the loops find the weight that `perf_init` found.
* `exec_restart`: the loop of `perf_restart` under such a mask goes through all the entries.
-/

import Xstats.Lib.Transition
import Xstats.Xstat.PerfContext

namespace Xstats.Xstat

open Transition PerfCounterContext

/-! ### State -/

/-- Where the thread is with the contexts of the counter. -/
inductive PerfPc (nrCpuIds : Nat)
  /-- There is no context. -/
  | absent
  /-- Between the calls. -/
  | idle (ctx : PerfCounterContext (KernelEvent nrCpuIds))
  /-- In `perf_restart`, before the test of iteration `i`. -/
  | restart (ctx : PerfCounterContext (KernelEvent nrCpuIds)) (i : Nat) (total : Word)
    (read : List (KernelEvent nrCpuIds))
  /-- In `perf_exit`, before the test of iteration `i`. -/
  | exit (ctx : PerfCounterContext (KernelEvent nrCpuIds)) (i : Nat)
    (released : List (KernelEvent nrCpuIds))
  /-- An entry beyond the array was used, and nothing is known of what follows. -/
  | beyond
  deriving DecidableEq, Repr

/-- What happened: an index was used on an array, a sample was read, a context was released. -/
inductive PerfRecord (nrCpuIds : Nat)
  | used (i entries : Nat)
  | sampled (total : Word) (read created : List (KernelEvent nrCpuIds))
  | exited (released created : List (KernelEvent nrCpuIds))
  deriving DecidableEq, Repr

/-- The node's mask and the counter's context, with two ghosts beside the history: the mask that the
last `perf_init` found, and the events that it created. -/
structure HotplugState (nrCpuIds : Nat) where
  mask : CpuMask nrCpuIds
  pc : PerfPc nrCpuIds
  nextCtx : Nat
  initMask : CpuMask nrCpuIds
  created : List (KernelEvent nrCpuIds)
  history : List (PerfRecord nrCpuIds)

inductive HotplugAction (nrCpuIds : Nat)
  /-- A CPU comes online or goes offline. -/
  | hotplug (cpu : Fin nrCpuIds) (online : Bool)
  /-- `perf_init`; `creates` says for which CPUs an event can be created. -/
  | perfInit (config : PerfEventConfig) (creates : Fin nrCpuIds → Bool)
  | perfRestart
  | perfExit
  /-- The test of a loop and, where it passes, the iteration; `ret` is what a read of the event
  returns. -/
  | iteration (ret : PerfEventValue)

namespace HotplugState

variable {nrCpuIds : Nat}

/-- A node with its mask, before the first `perf_init`. -/
def start (mask : CpuMask nrCpuIds) : HotplugState nrCpuIds :=
  { mask, pc := .absent, nextCtx := 0, initMask := mask, created := [], history := [] }

/-- The body of the loop in `perf_restart`, where the index has an entry. -/
def restartIteration (ρ : Rounding) (s : HotplugState nrCpuIds) (ret : PerfEventValue)
    (ctx : PerfCounterContext (KernelEvent nrCpuIds)) (i : Nat) (total : Word)
    (read : List (KernelEvent nrCpuIds)) (entry : PerfCounterPerCpu (KernelEvent nrCpuIds)) :
    HotplugState nrCpuIds :=
  let (entry', tmp) := restartEntry ρ (fun _ => ret) entry
  { s with
    pc := .restart { ctx with events := ctx.events.set i entry' } (i + 1) (total + tmp)
      (read ++ entry.event.toList)
    history := s.history ++ [.used i ctx.events.length] }

/-- The body of the loop in `perf_exit`, where the index has an entry. -/
def exitIteration (s : HotplugState nrCpuIds) (ctx : PerfCounterContext (KernelEvent nrCpuIds))
    (i : Nat) (released : List (KernelEvent nrCpuIds))
    (entry : PerfCounterPerCpu (KernelEvent nrCpuIds)) : HotplugState nrCpuIds :=
  { s with
    pc := .exit ctx (i + 1) (released ++ entry.event.toList)
    history := s.history ++ [.used i ctx.events.length] }

/-- An index beyond the array is used. -/
def goBeyond (s : HotplugState nrCpuIds) (ctx : PerfCounterContext (KernelEvent nrCpuIds)) (i : Nat) :
    HotplugState nrCpuIds :=
  { s with pc := .beyond, history := s.history ++ [.used i ctx.events.length] }

/-- The test of a loop and the iteration. -/
def iterate (ρ : Rounding) (s : HotplugState nrCpuIds) (ret : PerfEventValue) :
    Option (HotplugState nrCpuIds) :=
  match s.pc with
  | .restart ctx i total read =>
    if i < s.mask.weight then
      match ctx.events[i]? with
      | some entry => some (s.restartIteration ρ ret ctx i total read entry)
      | none => some (s.goBeyond ctx i)
    else
      some { s with pc := .idle ctx, history := s.history ++ [.sampled total read s.created] }
  | .exit ctx i released =>
    if i < s.mask.weight then
      match ctx.events[i]? with
      | some entry => some (s.exitIteration ctx i released entry)
      | none => some (s.goBeyond ctx i)
    else some { s with pc := .absent, history := s.history ++ [.exited released s.created] }
  | _ => none

/-- The step function. -/
def step (ρ : Rounding) (s : HotplugState nrCpuIds) :
    HotplugAction nrCpuIds → Option (HotplugState nrCpuIds)
  | .hotplug cpu online =>
    some { s with mask := if online then insert cpu s.mask else s.mask.erase cpu }
  | .perfInit config creates =>
    match s.pc with
    | .absent =>
      some { s with
        pc := .idle (perfInit (fun _ => KernelEvent.create s.nextCtx creates) s.mask config)
        nextCtx := s.nextCtx + 1
        initMask := s.mask
        created := s.mask.cpus.filterMap (KernelEvent.create s.nextCtx creates) }
    | _ => none
  | .perfRestart =>
    match s.pc with
    | .idle ctx => some { s with pc := .restart ctx 0 0 [] }
    | _ => none
  | .perfExit =>
    match s.pc with
    | .idle ctx => some { s with pc := .exit ctx 0 [] }
    | _ => none
  | .iteration ret => s.iterate ρ ret

end HotplugState

variable {nrCpuIds : Nat} {ρ : Rounding} {s s' : HotplugState nrCpuIds}

/-! ### What is asked of a run -/

/-- What happened is in step: the index is one of the array's, the sample read every event that was
created, the events that were created are released, each once. -/
def PerfRecord.Ok : PerfRecord nrCpuIds → Prop
  | .used i entries => i < entries
  | .sampled _ read created => ∀ event ∈ created, event ∈ read
  | .exited released created => released.Perm created ∧ released.Nodup

/-- All that happened is in step. -/
def HotplugState.InStep (s : HotplugState nrCpuIds) : Prop := ∀ record ∈ s.history, record.Ok

/-- The test of a loop at index `i`: where it passes, the mask that `perf_init` found had more CPUs than
`i` too, and where it fails, no event was created for the CPUs from the `i`-th on. -/
structure TestOk (s : HotplugState nrCpuIds) (ctx : PerfCounterContext (KernelEvent nrCpuIds))
    (i : Nat) : Prop where
  passes : i < s.mask.weight → i < s.initMask.weight
  fails : s.mask.weight ≤ i → ∀ entry ∈ ctx.events.drop i, entry.event = none

instance (s : HotplugState nrCpuIds) (ctx : PerfCounterContext (KernelEvent nrCpuIds)) (i : Nat) :
    Decidable (TestOk s ctx i) :=
  decidable_of_iff ((i < s.mask.weight → i < s.initMask.weight) ∧
    (s.mask.weight ≤ i → ∀ entry ∈ ctx.events.drop i, entry.event = none))
    ⟨fun both => ⟨both.1, both.2⟩, fun test => ⟨test.passes, test.fails⟩⟩

/-- The test that a step makes: on the entries of which context, at which index. -/
def testOf (s : HotplugState nrCpuIds) :
    HotplugAction nrCpuIds → Option (PerfCounterContext (KernelEvent nrCpuIds) × Nat)
  | .iteration _ =>
    match s.pc with
    | .restart ctx i _ _ | .exit ctx i _ => some (ctx, i)
    | _ => none
  | _ => none

/-- The condition on a step: the test it makes, if it makes one, is fine. -/
def StepOk (s : HotplugState nrCpuIds) (a : HotplugAction nrCpuIds) : Prop :=
  ∀ test ∈ testOf s a, TestOk s test.1 test.2

instance (s : HotplugState nrCpuIds) (a : HotplugAction nrCpuIds) : Decidable (StepOk s a) :=
  inferInstanceAs (Decidable (∀ test ∈ testOf s a, TestOk s test.1 test.2))

theorem stepOk_of_none {a : HotplugAction nrCpuIds} (none : testOf s a = none) : StepOk s a := by
  simp [StepOk, none]

theorem stepOk_iff {a : HotplugAction nrCpuIds} {ctx : PerfCounterContext (KernelEvent nrCpuIds)}
    {i : Nat} (test : testOf s a = some (ctx, i)) : StepOk s a ↔ TestOk s ctx i := by
  simp [StepOk, test]

/-! ### A loop over the entries -/

namespace PerfCounterContext

variable {ε : Type}

/-- The events of the entries before the `i`-th. -/
def createdBefore (ctx : PerfCounterContext ε) (i : Nat) : List ε :=
  (ctx.events.take i).filterMap fun entry => entry.event

theorem createdBefore_succ {ctx : PerfCounterContext ε} {i : Nat} {entry : PerfCounterPerCpu ε}
    (here : ctx.events[i]? = some entry) :
    ctx.createdBefore (i + 1) = ctx.createdBefore i ++ entry.event.toList := by
  rw [createdBefore, List.take_add_one, here, List.filterMap_append]
  cases event : entry.event <;> simp [createdBefore, event]

theorem created_eq_append (ctx : PerfCounterContext ε) (i : Nat) :
    ctx.created = ctx.createdBefore i ++ (ctx.events.drop i).filterMap fun entry => entry.event := by
  rw [createdBefore, ← List.filterMap_append, List.take_append_drop, created]

/-- An entry replaced by one with the same event. -/
theorem filterMap_event_set {entries : List (PerfCounterPerCpu ε)} {i : Nat}
    {entry entry' : PerfCounterPerCpu ε} (here : entries[i]? = some entry)
    (same : entry'.event = entry.event) (n : Nat) :
    ((entries.set i entry').take n).filterMap (fun entry => entry.event) =
      (entries.take n).filterMap fun entry => entry.event := by
  have mapped : (entries.set i entry').map (fun entry => entry.event) =
      entries.map fun entry => entry.event := by
    obtain ⟨inside, found⟩ := List.getElem?_eq_some_iff.mp here
    rw [List.map_set, same, ← found]
    refine List.ext_getElem (by simp) fun k _ _ => ?_
    rw [List.getElem_set]
    split
    · subst i
      simp
    · rfl
  have reduced : ∀ l : List (PerfCounterPerCpu ε), l.filterMap (fun entry => entry.event) =
      (l.map fun entry => entry.event).filterMap id := by
    intro l
    rw [List.filterMap_map]
    rfl
  rw [reduced, reduced, List.map_take, List.map_take, mapped]

end PerfCounterContext

/-! ### The invariant -/

/-- A context, with the mask that its `perf_init` found and the events that it created. -/
structure CtxOk (initMask : CpuMask nrCpuIds) (created : List (KernelEvent nrCpuIds))
    (ctx : PerfCounterContext (KernelEvent nrCpuIds)) : Prop where
  length_eq : ctx.events.length = initMask.weight
  created_eq : ctx.created = created
  nodup : created.Nodup

/-- What a loop that has come to index `i` has gone through. -/
structure LoopOk (initMask : CpuMask nrCpuIds) (created : List (KernelEvent nrCpuIds))
    (ctx : PerfCounterContext (KernelEvent nrCpuIds)) (i : Nat)
    (passed : List (KernelEvent nrCpuIds)) : Prop where
  context : CtxOk initMask created ctx
  passed_eq : passed = ctx.createdBefore i

/-- The context and the loop that is under way. -/
def PerfInv (s : HotplugState nrCpuIds) : Prop :=
  match s.pc with
  | .absent | .beyond => True
  | .idle ctx => CtxOk s.initMask s.created ctx
  | .restart ctx i _ read => LoopOk s.initMask s.created ctx i read
  | .exit ctx i released => LoopOk s.initMask s.created ctx i released

theorem nodup_filterMap_create (ctx : Nat) (creates : Fin nrCpuIds → Bool) (mask : CpuMask nrCpuIds) :
    (mask.cpus.filterMap (KernelEvent.create ctx creates)).Nodup := by
  refine List.Nodup.filterMap (fun cpu cpu' event here there => ?_) mask.nodup_cpus
  simp only [KernelEvent.create, Option.mem_def, Option.ite_none_right_eq_some] at here there
  exact congrArg KernelEvent.cpu (Option.some.inj (here.2.trans there.2.symm))

namespace LoopOk

variable {initMask : CpuMask nrCpuIds} {created passed : List (KernelEvent nrCpuIds)}
  {ctx : PerfCounterContext (KernelEvent nrCpuIds)} {i : Nat}

/-- Where the loop ends it has gone through all the events exactly if none is left. -/
theorem subset_iff (loop : LoopOk initMask created ctx i passed) :
    (∀ event ∈ created, event ∈ passed) ↔ ∀ entry ∈ ctx.events.drop i, entry.event = none := by
  obtain ⟨⟨_, rfl, nodup⟩, rfl⟩ := loop
  rw [created_eq_append ctx i] at nodup ⊢
  have disjoint := (List.nodup_append'.mp nodup).2.2
  constructor
  · intro all entry member
    cases held : entry.event with
    | none => rfl
    | some event =>
      have left : event ∈ (ctx.events.drop i).filterMap fun entry => entry.event :=
        List.mem_filterMap.mpr ⟨entry, member, held⟩
      exact absurd left (disjoint (all event (List.mem_append_right _ left)))
  · intro none event member
    refine (List.mem_append.mp member).resolve_right fun left => ?_
    obtain ⟨entry, inside, held⟩ := List.mem_filterMap.mp left
    rw [none entry inside] at held
    cases held

/-- The same of the loop that releases them. -/
theorem perm_iff (loop : LoopOk initMask created ctx i passed) :
    (passed.Perm created ∧ passed.Nodup) ↔ ∀ entry ∈ ctx.events.drop i, entry.event = none := by
  rw [← loop.subset_iff]
  refine ⟨fun perm event member => perm.1.mem_iff.mpr member, fun all => ?_⟩
  obtain ⟨⟨_, rfl, nodup⟩, rfl⟩ := loop
  have split := created_eq_append ctx i
  have distinct : (ctx.createdBefore i).Nodup := by
    rw [split] at nodup
    exact (List.nodup_append'.mp nodup).1
  refine ⟨(List.perm_ext_iff_of_nodup distinct nodup).mpr fun event => ⟨fun member => ?_, all event⟩,
    distinct⟩
  rw [split]
  exact List.mem_append_left _ member

/-- The loop goes through an entry. -/
theorem next (loop : LoopOk initMask created ctx i passed)
    {entry : PerfCounterPerCpu (KernelEvent nrCpuIds)} (here : ctx.events[i]? = some entry) :
    LoopOk initMask created ctx (i + 1) (passed ++ entry.event.toList) :=
  ⟨loop.context, by rw [createdBefore_succ here, loop.passed_eq]⟩

/-- It keeps what it read there beside the event. -/
theorem next_set (loop : LoopOk initMask created ctx i passed)
    {entry entry' : PerfCounterPerCpu (KernelEvent nrCpuIds)} (here : ctx.events[i]? = some entry)
    (same : entry'.event = entry.event) :
    LoopOk initMask created { ctx with events := ctx.events.set i entry' } (i + 1)
      (passed ++ entry.event.toList) := by
  obtain ⟨⟨length, created, nodup⟩, passed⟩ := loop.next here
  have kept := filterMap_event_set here same
  refine ⟨⟨(List.length_set ..).trans length, ?_, nodup⟩, passed.trans (kept (i + 1)).symm⟩
  have all := kept ctx.events.length
  rw [List.take_of_length_le (by simp), List.take_length] at all
  exact all.trans created

end LoopOk

/-! ### The step lemma -/

theorem inStep_append {record : PerfRecord nrCpuIds}
    (appended : s'.history = s.history ++ [record]) : s'.InStep ↔ s.InStep ∧ record.Ok := by
  simp only [HotplugState.InStep, appended, List.mem_append, List.mem_singleton, or_imp, forall_and,
    forall_eq]

/-- A test that passes at an index with an entry is fine, and so is the use of the entry. -/
theorem TestOk.of_entry {ctx : PerfCounterContext (KernelEvent nrCpuIds)} {i : Nat}
    {entry : PerfCounterPerCpu (KernelEvent nrCpuIds)} (ok : CtxOk s.initMask s.created ctx)
    (passes : i < s.mask.weight) (here : ctx.events[i]? = some entry) :
    TestOk s ctx i ∧ i < ctx.events.length := by
  obtain ⟨inside, _⟩ := List.getElem?_eq_some_iff.mp here
  exact ⟨⟨fun _ => ok.length_eq ▸ inside, fun fails => absurd fails (not_le.mpr passes)⟩, inside⟩

/-- A test that passes at an index without an entry is not. -/
theorem not_testOk_of_none {ctx : PerfCounterContext (KernelEvent nrCpuIds)} {i : Nat}
    (ok : CtxOk s.initMask s.created ctx) (passes : i < s.mask.weight) (beyond : ctx.events[i]? = none) :
    ¬ TestOk s ctx i ∧ ¬ i < ctx.events.length := by
  have outside := List.getElem?_eq_none_iff.mp beyond
  refine ⟨fun test => ?_, not_lt.mpr outside⟩
  have inside := test.passes passes
  rw [← ok.length_eq] at inside
  exact absurd inside (not_lt.mpr outside)

/-- A test that fails is fine if no event is left. -/
theorem testOk_iff_of_fails {ctx : PerfCounterContext (KernelEvent nrCpuIds)} {i : Nat}
    (fails : ¬ i < s.mask.weight) :
    TestOk s ctx i ↔ ∀ entry ∈ ctx.events.drop i, entry.event = none :=
  ⟨fun test => test.fails (not_lt.mp fails),
    fun none => ⟨fun passes => absurd passes fails, fun _ => none⟩⟩

/-- **An iteration** keeps the invariant, and keeps the history in step exactly if its test is fine. -/
theorem PerfInv.iterate (inv : PerfInv s) {ret : PerfEventValue}
    (taken : s.iterate ρ ret = some s') :
    PerfInv s' ∧ (s'.InStep ↔ s.InStep ∧ StepOk s (.iteration ret)) := by
  unfold HotplugState.iterate at taken
  unfold PerfInv at inv
  cases pc : s.pc with
  | absent | idle | beyond =>
    simp only [pc] at taken
    cases taken
  | restart ctx i total read =>
    simp only [pc] at taken inv
    have test : testOf s (.iteration ret) = some (ctx, i) := by simp only [testOf, pc]
    rw [stepOk_iff test]
    by_cases passes : i < s.mask.weight
    · rw [if_pos passes] at taken
      cases here : ctx.events[i]? with
      | none =>
        simp only [here, Option.some.injEq] at taken
        subst taken
        obtain ⟨bad, outside⟩ := not_testOk_of_none inv.context passes here
        refine ⟨trivial, (inStep_append rfl).trans ?_⟩
        simp only [PerfRecord.Ok, bad, outside]
      | some entry =>
        simp only [here, Option.some.injEq] at taken
        subst taken
        obtain ⟨good, inside⟩ := TestOk.of_entry inv.context passes here
        refine ⟨inv.next_set here (event_restartEntry ..), (inStep_append rfl).trans ?_⟩
        simp only [PerfRecord.Ok, good, inside]
    · rw [if_neg passes] at taken
      cases taken
      refine ⟨inv.context, (inStep_append rfl).trans (and_congr_right fun _ => ?_)⟩
      exact inv.subset_iff.trans (testOk_iff_of_fails passes).symm
  | exit ctx i released =>
    simp only [pc] at taken inv
    have test : testOf s (.iteration ret) = some (ctx, i) := by simp only [testOf, pc]
    rw [stepOk_iff test]
    by_cases passes : i < s.mask.weight
    · rw [if_pos passes] at taken
      cases here : ctx.events[i]? with
      | none =>
        simp only [here, Option.some.injEq] at taken
        subst taken
        obtain ⟨bad, outside⟩ := not_testOk_of_none inv.context passes here
        refine ⟨trivial, (inStep_append rfl).trans ?_⟩
        simp only [PerfRecord.Ok, bad, outside]
      | some entry =>
        simp only [here, Option.some.injEq] at taken
        subst taken
        obtain ⟨good, inside⟩ := TestOk.of_entry inv.context passes here
        refine ⟨inv.next here, (inStep_append rfl).trans ?_⟩
        simp only [PerfRecord.Ok, good, inside]
    · rw [if_neg passes] at taken
      cases taken
      refine ⟨trivial, (inStep_append rfl).trans (and_congr_right fun _ => ?_)⟩
      exact inv.perm_iff.trans (testOk_iff_of_fails passes).symm

theorem perfInv_start (mask : CpuMask nrCpuIds) : PerfInv (HotplugState.start mask) := trivial

/-- **One step** keeps the invariant, and keeps the history in step exactly if the test it makes is
fine. -/
theorem PerfInv.step (inv : PerfInv s) {a : HotplugAction nrCpuIds} (taken : s.step ρ a = some s') :
    PerfInv s' ∧ (s'.InStep ↔ s.InStep ∧ StepOk s a) := by
  cases a with
  | hotplug cpu online =>
    cases taken
    exact ⟨inv, (and_iff_left (stepOk_of_none rfl)).symm⟩
  | perfInit config creates =>
    unfold HotplugState.step at taken
    cases pc : s.pc with
    | absent =>
      simp only [pc] at taken
      cases taken
      exact ⟨⟨length_perfInit .., created_perfInit .., nodup_filterMap_create ..⟩,
        (and_iff_left (stepOk_of_none rfl)).symm⟩
    | idle | restart | exit | beyond =>
      simp only [pc] at taken
      cases taken
  | perfRestart | perfExit =>
    unfold HotplugState.step at taken
    unfold PerfInv at inv
    cases pc : s.pc with
    | idle ctx =>
      simp only [pc] at taken inv
      cases taken
      exact ⟨⟨inv, rfl⟩, (and_iff_left (stepOk_of_none rfl)).symm⟩
    | absent | restart | exit | beyond =>
      simp only [pc] at taken
      cases taken
  | iteration ret => exact inv.iterate taken

/-! ### Runs -/

/-- **When the arrays stay in step.** Whatever mask the counter's contexts are created for, and however
CPUs come and go between any two iterations: every index used is one of the array's, every sample read
all events of its context, and every `perf_exit` released each of them once, if and only if at each test
of a loop the mask's weight stands to the index as it did when `perf_init` took it, or is below it with
no event created for the CPUs that are left out. -/
theorem perf_in_step_iff {mask : CpuMask nrCpuIds}
    {trace : List (HotplugState nrCpuIds × HotplugAction nrCpuIds)}
    (run : Run (HotplugState.step ρ) (.start mask) trace s) :
    s.InStep ↔ ∀ x ∈ trace, StepOk x.1 x.2 := by
  suffices both : PerfInv s ∧ (s.InStep ↔ ∀ x ∈ trace, StepOk x.1 x.2) from both.2
  induction run with
  | nil => exact ⟨perfInv_start mask, by simp [HotplugState.InStep, HotplugState.start]⟩
  | snoc _ taken ih =>
    obtain ⟨inv, before⟩ := ih
    obtain ⟨after, step⟩ := inv.step taken
    refine ⟨after, ?_⟩
    simp only [step, before, List.mem_append, List.mem_singleton, or_imp, forall_and, forall_eq]

/-- A loop that finds the weight which `perf_init` found makes only tests that are fine. -/
theorem stepOk_of_weight (inv : PerfInv s) (same : s.mask.weight = s.initMask.weight)
    (a : HotplugAction nrCpuIds) : StepOk s a := by
  have test : ∀ ctx i, CtxOk s.initMask s.created ctx → TestOk s ctx i := by
    intro ctx i ok
    refine ⟨fun passes => same ▸ passes, fun fails => ?_⟩
    rw [List.drop_of_length_le (by rw [ok.length_eq, ← same]; exact fails)]
    simp
  intro ⟨ctx, i⟩ made
  refine test ctx i ?_
  unfold PerfInv at inv
  cases a with
  | iteration ret =>
    simp only [testOf] at made
    cases pc : s.pc with
    | restart | exit =>
      simp only [pc, Option.mem_def, Option.some.injEq, Prod.mk.injEq] at made inv
      exact made.1 ▸ inv.context
    | absent | idle | beyond =>
      simp only [pc] at made
      cases made
  | hotplug | perfInit | perfRestart | perfExit => cases made

/-- **Without hotplug under a loop.** A run is in step if each iteration finds as many CPUs as the last
`perf_init` did, whichever these are, and whatever happens between the calls. -/
theorem perf_in_step_of_weight {mask : CpuMask nrCpuIds}
    {trace : List (HotplugState nrCpuIds × HotplugAction nrCpuIds)}
    (run : Run (HotplugState.step ρ) (.start mask) trace s)
    (same : ∀ x ∈ trace, (∃ ret, x.2 = .iteration ret) → x.1.mask.weight = x.1.initMask.weight) :
    s.InStep := by
  have visited := run.visited (P := PerfInv) (fun _ _ => True) (perfInv_start mask)
    (fun _ _ _ inv _ taken => (inv.step taken).1) fun _ _ => trivial
  refine (perf_in_step_iff run).mpr fun x member => ?_
  by_cases iteration : ∃ ret, x.2 = .iteration ret
  · exact stepOk_of_weight (visited x member) (same x member iteration) x.2
  · cases action : x.2 with
    | iteration ret => exact absurd ⟨ret, action⟩ iteration
    | hotplug | perfInit | perfRestart | perfExit => exact stepOk_of_none rfl

/-! ### The loop under a mask that stays -/

/-- What the kernel returns in the iteration of an entry, where `value` says what it returns of each
event. -/
def readOf (value : KernelEvent nrCpuIds → PerfEventValue)
    (entry : PerfCounterPerCpu (KernelEvent nrCpuIds)) : PerfEventValue :=
  (entry.event.map value).getD .zero

theorem restartEntry_readOf (value : KernelEvent nrCpuIds → PerfEventValue)
    (entry : PerfCounterPerCpu (KernelEvent nrCpuIds)) :
    restartEntry ρ (fun _ => readOf value entry) entry = restartEntry ρ value entry := by
  cases event : entry.event <;> simp [restartEntry, readOf, event]

/-- **The loop of `perf_restart`** from any index on, where the mask holds as many CPUs as there are
entries: it makes of the entries that are left what `perfRestart` does. -/
theorem exec_restart {config : PerfEventConfig} {total : Word} {read : List (KernelEvent nrCpuIds)}
    (value : KernelEvent nrCpuIds → PerfEventValue)
    {done left : List (PerfCounterPerCpu (KernelEvent nrCpuIds))}
    (pc : s.pc = .restart ⟨config, done ++ left⟩ done.length total read)
    (same : s.mask.weight = (done ++ left).length) :
    ∃ s', exec (HotplugState.step ρ) s
        (left.map fun entry => .iteration (readOf value entry)) = some s' ∧
      s'.mask = s.mask ∧ s'.pc = .restart
        ⟨config, done ++ (perfRestart ρ value ⟨config, left⟩).1.events⟩ (done ++ left).length
        (total + (perfRestart ρ value ⟨config, left⟩).2) (read ++ created ⟨config, left⟩) := by
  induction left generalizing s done total read with
  | nil => exact ⟨s, rfl, rfl, by simpa [perfRestart, created] using pc⟩
  | cons entry rest ih =>
    have passes : done.length < s.mask.weight := by
      rw [same, List.length_append, List.length_cons]
      omega
    have here : (done ++ entry :: rest)[done.length]? = some entry := by simp
    have step : s.step ρ (.iteration (readOf value entry)) =
        some (s.restartIteration ρ (readOf value entry) ⟨config, done ++ entry :: rest⟩ done.length total
          read entry) := by
      simp only [HotplugState.step, HotplugState.iterate, pc, if_pos passes, here]
    set next := s.restartIteration ρ (readOf value entry) ⟨config, done ++ entry :: rest⟩ done.length
      total read entry
    have place : next.pc = .restart ⟨config, (done ++ [(restartEntry ρ value entry).1]) ++ rest⟩
        (done ++ [(restartEntry ρ value entry).1]).length (total + (restartEntry ρ value entry).2)
        (read ++ entry.event.toList) := by
      simp [next, HotplugState.restartIteration, restartEntry_readOf]
    have weight : next.mask.weight = ((done ++ [(restartEntry ρ value entry).1]) ++ rest).length := by
      simpa [next, HotplugState.restartIteration] using same
    obtain ⟨s', reached, mask, place⟩ := ih place weight
    refine ⟨s', ?_, mask, place.trans ?_⟩
    · rw [List.map_cons, exec, step]
      exact reached
    · cases event : entry.event <;> simp [perfRestart, created, event, add_assoc]

/-! ### Two runs -/

/-- Two of four CPUs are online and get a context; `between` happens before the first sample, which makes
`count` steps. -/
def sampledAfter (between : List (HotplugAction 4)) (count : Nat) : List (HotplugAction 4) :=
  [.perfInit ⟨4, 0x3c⟩ fun _ => true] ++ between ++ [.perfRestart] ++
    List.replicate count (.iteration .zero)

/-- One CPU goes and another comes before the sample: it reads both events, and they are released. -/
theorem perf_in_step_replaced :
    ∃ trace s, Run (HotplugState.step .exact) (.start ({0, 1} : CpuMask 4)) trace s ∧
      .exited [⟨0, 0⟩, ⟨0, 1⟩] [⟨0, 0⟩, ⟨0, 1⟩] ∈ s.history ∧ s.InStep := by
  set actions := sampledAfter [.hotplug 1 false, .hotplug 2 true] 3 ++
    [.perfExit, .iteration .zero, .iteration .zero, .iteration .zero]
  have done : (exec (HotplugState.step .exact) (.start ({0, 1} : CpuMask 4)) actions).any fun s =>
      s.history.contains (.exited [⟨0, 0⟩, ⟨0, 1⟩] [⟨0, 0⟩, ⟨0, 1⟩]) := by decide +kernel
  have fine : ∀ x ∈ visits (HotplugState.step .exact) (.start ({0, 1} : CpuMask 4)) actions,
      StepOk x.1 x.2 := by decide +kernel
  obtain ⟨s, reached, passed⟩ := (Option.any_eq_true _ _).mp done
  exact ⟨_, s, run_visits reached, by simpa using passed,
    (perf_in_step_iff (run_visits reached)).mpr fine⟩

/-- A CPU comes online: the sample reads an entry beyond the array. -/
theorem sample_reads_beyond :
    ¬ ∀ (nrCpuIds : Nat) (mask : CpuMask nrCpuIds) trace s,
      Run (HotplugState.step .exact) (.start mask) trace s → s.InStep := by
  intro always
  have done : (exec (HotplugState.step .exact) (.start ({0, 1} : CpuMask 4))
      (sampledAfter [.hotplug 2 true] 3)).any fun s => s.history.contains (.used 2 2) := by
    decide +kernel
  obtain ⟨trace, s, run, _, passed⟩ := run_of_exec_any done
  have bad := always 4 _ trace s run (.used 2 2) (by simpa using passed)
  exact Nat.lt_irrefl 2 bad

end Xstats.Xstat
