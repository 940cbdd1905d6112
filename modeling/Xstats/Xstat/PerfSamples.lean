/-
**The perf counters of the samples.**

A sample's word of a perf counter is the result of a call of `perf_restart`, its timestamp was read before
the calls of its pass, and its interval reaches back to the timestamp of the sample before. So interval
and perf counters speak of the same time, up to the instants within a pass at which they are read, and
they do so across all samplers of a node, if nothing is missed between two of them. What the timestamps
say of these instants rests on `get_time`: on the time that it returns being that of the call.

* `ResultInv.step`: the words of the samples are the results of the calls.
* `AlignInv.step`: timestamps and calls take turns, while `get_time` returns the time.
* `perf_window_iff`: when a sample's perf counter gives the events since the sample before.
-/

import Xstats.Xstat.PerfWindows
import Xstats.Xstat.SampleWords
import Xstats.Xstat.Energy

namespace Xstats.Xstat

open Transition ModuleState

variable {m : Machine} {ρ : Rounding}

/-! ### Calls and words -/

theorem restart_of_isPerf {i : Fin xstatNcnt} (perf : IsPerf i) :
    (nodeCounters i).restart = .perfRestart := by
  have all : ∀ i, (nodeCounters i).init = some .perfInit →
      (nodeCounters i).restart = .perfRestart := by decide
  exact all i perf

theorem not_isPerf_zero : ¬ IsPerf 0 := by
  unfold IsPerf
  decide

section Work

variable {s : ModuleState} {a : ModuleAction} {nid ctx : Nat} {i : Fin xstatNcnt}

theorem restarts_of_perfWork (work : s.perfWork a = some (.restart nid i ctx)) :
    s.Restarts a nid i ∧ IsPerf i := by
  cases a with
  | sampler tid input =>
    obtain ⟨th, thread, here⟩ := Option.bind_eq_some_iff.mp work
    cases pc : th.pc with
    | restart k =>
      rw [pc, workAt] at here
      obtain ⟨perf, rest⟩ := Option.ite_none_right_eq_some.mp here
      obtain ⟨_, _, call⟩ := Option.map_eq_some_iff.mp rest
      cases call
      exact ⟨⟨tid, input, th, rfl, thread, rfl, pc⟩, isPerf_of_restart perf⟩
    | initCounters k =>
      rw [pc, workAt] at here
      obtain ⟨_, call⟩ := Option.ite_none_right_eq_some.mp here
      cases call
    | exitCounters k =>
      rw [pc, workAt] at here
      obtain ⟨_, rest⟩ := Option.ite_none_right_eq_some.mp here
      obtain ⟨_, _, call⟩ := Option.map_eq_some_iff.mp rest
      cases call
    | created | commit | afterRoll | firstCheck | sleeping | secondCheck | returned
    | cancelled =>
      rw [pc] at here
      cases here
  | _ => cases work

theorem perfWork_of_restarts (restarts : s.Restarts a nid i) (perf : IsPerf i) {node : XstatNode}
    (there : s.xstatNodes nid = some node) (followed : node.CanRestart i) :
    ∃ ctx, s.perfWork a = some (.restart nid i ctx) := by
  obtain ⟨tid, input, th, rfl, thread, rfl, pc⟩ := restarts
  obtain ⟨ctx, entry⟩ := followed.1 (restart_of_isPerf perf)
  refine ⟨ctx, ?_⟩
  have here : s.ctxAt th.nid i = some ctx := by
    rw [ctxAt, ModuleState.entry, there, Option.map_some, entry]
    rfl
  simp only [perfWork, thread, Option.bind_some, pc, workAt, if_pos (restart_of_isPerf perf), here,
    Option.map_some]

/-- An action makes the call of one counter on one node. -/
theorem Restarts.unique {n : Nat} {j : Fin xstatNcnt} (first : s.Restarts a nid i)
    (second : s.Restarts a n j) : nid = n ∧ i = j := by
  obtain ⟨tid, input, th, rfl, thread, rfl, pc⟩ := first
  obtain ⟨_, _, th', same, thread', rfl, pc'⟩ := second
  cases same
  rw [thread] at thread'
  cases thread'
  rw [pc] at pc'
  cases pc'
  exact ⟨rfl, rfl⟩

theorem restarts_withTotal {n : Nat} {a : PerfAction n} {total : Word} :
    s.Restarts (a.withTotal total) nid i ↔ s.Restarts a.action nid i := by
  unfold PerfAction.withTotal
  split
  · next tid input action =>
    rw [action]
    constructor <;>
    · rintro ⟨_, _, th, ⟨⟩, rest⟩
      exact ⟨tid, _, th, rfl, rest⟩
  · rfl

end Work

/-- The words of the perf counters are the results of the calls. -/
def ResultInv (s : PerfState m.nrCpuIds) : Prop :=
  ∀ nid node, s.module.xstatNodes nid = some node → ∀ i, IsPerf i →
    s.module.words nid node i = (s.calls nid i).map PerfCall.result

theorem resultInv_start : ResultInv (PerfState.start m) := by
  intro nid node there i perf
  show wordsOf [] ((xstatInit m.maxNumnodes m.nodeOnline).stage nid) node i = []
  rw [stage_xstatInit]
  rfl

section Steps

variable {s s' : PerfState m.nrCpuIds} {a : PerfAction m.nrCpuIds}

theorem ResultInv.step (result : ResultInv s) (ctrl : CtrlInv m.maxNumnodes s.module)
    (taken : s.step ρ a = some s') : ResultInv s' := by
  obtain ⟨_, move⟩ := PerfState.move_of_step ρ taken
  -- A step that makes no call of `perf_restart` changes no word of a perf counter.
  have quiet : ∀ {module total}, s.module.step m.maxNumnodes (a.withTotal total) = some module →
      (∀ nid i ctx, s.module.perfWork a.action ≠ some (.restart nid i ctx)) →
      ∀ nid node', module.xstatNodes nid = some node' → ∀ i, IsPerf i →
        module.words nid node' i = (s.calls nid i).map PerfCall.result := by
    intro module total step none nid node' there i perf
    obtain ⟨node, before, words⟩ := words_of_step ctrl step there i
    cases words with
    | result tid input action restarts words done =>
      obtain ⟨ctx, work⟩ := perfWork_of_restarts (restarts_withTotal.mp restarts) perf before
        (XstatNode.restartCounter_spec done).followed
      exact absurd work (none nid i ctx)
    | same _ words => rw [words, result nid node before i perf]
  cases move with
  | quiet work step => exact quiet step (by simp [work])
  | init work step => exact quiet step (by simp [work])
  | exit work step => exact quiet step (by simp [work])
  | @restart module nid k ctx context work there step =>
    intro n node' thereAfter i perf
    obtain ⟨makes, _⟩ := restarts_of_perfWork work
    obtain ⟨node, before, words⟩ := words_of_step ctrl step thereAfter i
    show _ = (Function.update s.calls nid (Function.update (s.calls nid) k _) n i).map PerfCall.result
    rw [update_calls]
    cases words with
    | result tid input action restarts words done =>
      obtain ⟨rfl, rfl⟩ := Restarts.unique makes (restarts_withTotal.mp restarts)
      have total := restartCounter_total (restart_of_isPerf perf) done
      rw [words, result _ node before _ perf, total, (PerfAction.withTotal_eq action).1,
        if_pos ⟨rfl, rfl⟩,
        List.map_append, List.map_singleton]
    | same other words =>
      have apart : ¬(n = nid ∧ i = k) := by
        rintro ⟨rfl, rfl⟩
        exact other (restarts_withTotal.mpr makes)
      rw [words, result n node before i perf, if_neg apart]

end Steps

/-! ### Timestamps and calls -/

/-- Each timestamp is read before the call of its pass, and each call comes before the next timestamp. -/
structure Interleaved {n : Nat} (times : List Word) (calls : List (PerfCall n)) : Prop where
  starts : ∀ (k : Nat) (t : Word) (call : PerfCall n), times[k]? = some t → calls[k]? = some call →
    ∀ cpu, t ≤ call.instant cpu
  ends : ∀ (k : Nat) (call : PerfCall n) (t : Word), calls[k]? = some call → times[k + 1]? = some t →
    ∀ cpu, call.instant cpu ≤ t

section Interleaved

variable {n : Nat} {times : List Word} {calls : List (PerfCall n)}

/-- What is at an index of a list that one more was appended to. -/
theorem getElem?_concat {α : Type} {l : List α} {x y : α} {k : Nat}
    (here : (l ++ [x])[k]? = some y) : l[k]? = some y ∨ k = l.length ∧ x = y := by
  rcases Nat.lt_trichotomy k l.length with old | rfl | beyond
  · rw [List.getElem?_append_left old] at here
    exact .inl here
  · rw [List.getElem?_append_right le_rfl, Nat.sub_self] at here
    exact .inr ⟨rfl, Option.some.inj here⟩
  · rw [List.getElem?_eq_none (by simp; omega)] at here
    cases here

/-- The timestamp of a new pass. -/
theorem Interleaved.time (ok : Interleaved times calls) (shorter : calls.length ≤ times.length) {t : Word}
    (later : ∀ call ∈ calls, ∀ cpu, call.instant cpu ≤ t) : Interleaved (times ++ [t]) calls where
  starts := fun k time call here there => by
    rcases getElem?_concat here with old | ⟨rfl, _⟩
    · exact ok.starts k time call old there
    · rw [List.getElem?_eq_none shorter] at there
      cases there
  ends := fun k call time here there => by
    rcases getElem?_concat there with old | ⟨_, rfl⟩
    · exact ok.ends k call time here old
    · exact later call (List.mem_of_getElem? here)

/-- The call of a pass. -/
theorem Interleaved.call (ok : Interleaved times calls) (shorter : times.length ≤ calls.length + 1)
    {new : PerfCall n} (later : ∀ t ∈ times, ∀ cpu, t ≤ new.instant cpu) :
    Interleaved times (calls ++ [new]) where
  starts := fun k time call here there => by
    rcases getElem?_concat there with old | ⟨_, rfl⟩
    · exact ok.starts k time call here old
    · exact later time (List.mem_of_getElem? here)
  ends := fun k call time here there => by
    rcases getElem?_concat here with old | ⟨rfl, _⟩
    · exact ok.ends k call time old there
    · rw [List.getElem?_eq_none shorter] at there
      cases there

end Interleaved

/-! ### What a step adds -/

section Steps

variable {s s' : PerfState m.nrCpuIds} {a : PerfAction m.nrCpuIds}

/-- A step is one of the module. -/
theorem PerfState.module_of_step (taken : s.step ρ a = some s') :
    (∃ total, s.module.step m.maxNumnodes (a.withTotal total) = some s'.module) ∧
    s'.clock = a.now := by
  obtain ⟨_, move⟩ := PerfState.move_of_step ρ taken
  cases move with
  | quiet _ step | init _ step | restart _ _ step | exit _ step => exact ⟨⟨_, step⟩, rfl⟩

/-- The calls after a step: one more where it makes one, at its instants. -/
theorem PerfState.calls_of_step (taken : s.step ρ a = some s') (nid : Nat) (i : Fin xstatNcnt) :
    s'.calls nid i = s.calls nid i ∨
      ∃ call, s'.calls nid i = s.calls nid i ++ [call] ∧ call.instant = a.instant ∧
        IsPerf i ∧ s.module.Restarts a.action nid i := by
  obtain ⟨_, move⟩ := PerfState.move_of_step ρ taken
  cases move with
  | quiet | init | exit => exact .inl rfl
  | restart work =>
    obtain ⟨makes, perf⟩ := restarts_of_perfWork work
    simp only [update_calls]
    split
    · next both =>
      obtain ⟨rfl, rfl⟩ := both
      exact .inr ⟨⟨_, s.born _, a.instant, _⟩, rfl, rfl, perf, makes⟩
    · exact .inl rfl

end Steps

/-- Where the step is a `ts_restart`, `get_time` returned a time of the step. -/
def PerfState.ReadsClock (s : PerfState m.nrCpuIds) (a : PerfAction m.nrCpuIds) : Prop :=
  ∀ tid input th, a.action = .sampler tid input → s.module.samplers tid = some th →
    th.pc = .restart 0 → s.clock ≤ input.now ∧ input.now ≤ a.now

/-! ### The invariant -/

theorem length_wordsOf_le (records : List Record) (stage : Nat) (node : XstatNode) (i : Fin xstatNcnt) :
    (wordsOf records stage node i).length ≤ (wordsOf records stage node 0).length ∧
    (wordsOf records stage node 0).length ≤ (wordsOf records stage node i).length + 1 := by
  have lengths : ∀ j : Fin xstatNcnt, (wordsOf records stage node j).length =
      records.length + if j.val < stage then 1 else 0 := by
    intro j
    rw [wordsOf, List.length_append, List.length_map]
    split <;> rfl
  rw [lengths i, lengths 0]
  have first : (0 : Fin xstatNcnt).val ≤ i.val := Nat.zero_le _
  split <;> split <;> omega

/-- The timestamps go up, and timestamps and calls take turns. -/
structure AlignInv (s : PerfState m.nrCpuIds) : Prop where
  forward : ForwardInv s.clock.toNat s.module
  read : ∀ nid node, s.module.xstatNodes nid = some node →
    ∀ t ∈ s.module.words nid node 0, t ≤ s.clock
  turns : ∀ nid node, s.module.xstatNodes nid = some node → ∀ i, IsPerf i →
    Interleaved (s.module.words nid node 0) (s.calls nid i)

theorem alignInv_start : AlignInv (PerfState.start m) where
  forward := forwardInv_xstatInit _ m.maxNumnodes m.nodeOnline
  read := fun nid node there t member => by
    change t ∈ wordsOf [] ((xstatInit m.maxNumnodes m.nodeOnline).stage nid) node 0 at member
    rw [stage_xstatInit] at member
    cases member
  turns := fun _ _ _ _ _ => ⟨fun _ _ _ _ there => (by cases there), fun _ _ _ there => (by cases there)⟩

section Steps

variable {s s' : PerfState m.nrCpuIds} {a : PerfAction m.nrCpuIds}

/-- The timestamps after a step: one more where it is a `ts_restart`, and that of the step. -/
theorem PerfState.times_of_step (ctrl : CtrlInv m.maxNumnodes s.module) (reads : s.ReadsClock a)
    (taken : s.step ρ a = some s') {nid : Nat} {node' : XstatNode}
    (there : s'.module.xstatNodes nid = some node') :
    ∃ node, s.module.xstatNodes nid = some node ∧
      (s'.module.words nid node' 0 = s.module.words nid node 0 ∨
        ∃ now, s'.module.words nid node' 0 = s.module.words nid node 0 ++ [now] ∧
          s.clock ≤ now ∧ now ≤ a.now ∧ s.module.Restarts a.action nid 0) := by
  obtain ⟨⟨total, step⟩, _⟩ := PerfState.module_of_step taken
  obtain ⟨node, before, words⟩ := words_of_step ctrl step there 0
  refine ⟨node, before, ?_⟩
  cases words with
  | result tid input action restarts words done =>
    obtain ⟨_, given, is, now⟩ := PerfAction.withTotal_eq action
    have restarts := restarts_withTotal.mp restarts
    obtain ⟨t, input', th, same, thread, home, place⟩ := restarts
    rw [is] at same
    cases same
    obtain ⟨low, high⟩ := reads _ _ th is thread place
    refine .inr ⟨input.now, ?_, now ▸ low, now ▸ high, _, _, th, is, thread, home, place⟩
    rw [words, XstatNode.restartCounter_now done, if_pos rfl]
  | same _ words => exact .inl words

theorem AlignInv.step (align : AlignInv s) (perf : WindowInv s) (result : ResultInv s)
    (ctrl : CtrlInv m.maxNumnodes s.module) (reads : s.ReadsClock a) (taken : s.step ρ a = some s') :
    AlignInv s' := by
  obtain ⟨⟨total, step⟩, clock⟩ := PerfState.module_of_step taken
  obtain ⟨timely, _⟩ := PerfState.move_of_step ρ taken
  have old : ∀ nid node, s.module.xstatNodes nid = some node →
      ∀ t ∈ s.module.words nid node 0, t ≤ s'.clock :=
    fun nid node before t member => BitVec.le_trans (align.read nid node before t member)
      (clock ▸ timely.1)
  refine ⟨?_, fun nid node' there t member => ?_, fun nid node' there i isPerf => ?_⟩
  · rw [clock]
    refine align.forward.step ctrl (BitVec.le_def.mp timely.1) ?_ step
    intro tid input th node action thread place there
    obtain ⟨_, given, is, now⟩ := PerfAction.withTotal_eq action
    obtain ⟨low, high⟩ := reads tid given th is thread place
    rw [now]
    exact ⟨BitVec.le_def.mpr ((align.forward th.nid node there).bound.trans (BitVec.le_def.mp low)),
      BitVec.le_def.mp high⟩
  · obtain ⟨node, before, same | ⟨now, more, _, high, _⟩⟩ := PerfState.times_of_step ctrl reads taken there
    · exact old nid node before t (same ▸ member)
    · rw [more] at member
      rcases List.mem_append.mp member with earlier | new
      · exact old nid node before t earlier
      · rw [List.mem_singleton.mp new, clock]
        exact high
  · obtain ⟨node, before, stored⟩ := PerfState.times_of_step ctrl reads taken there
    have turns := align.turns nid node before i isPerf
    obtain ⟨shorter, longer⟩ := length_wordsOf_le (s.module.samples nid) (s.module.stage nid) node i
    have calls := congrArg List.length (result nid node before i isPerf)
    rw [List.length_map] at calls
    change (s.module.words nid node i).length ≤ (s.module.words nid node 0).length at shorter
    change (s.module.words nid node 0).length ≤ (s.module.words nid node i).length + 1 at longer
    rcases PerfState.calls_of_step taken nid i with quiet | ⟨call, called, instant, _, restarts⟩
    · rw [quiet]
      rcases stored with same | ⟨now, more, low, _⟩
      · rwa [same]
      · rw [more]
        exact turns.time (calls ▸ shorter) fun call member cpu =>
          BitVec.le_trans ((perf.past nid i call member).2 cpu) low
    · have same : s'.module.words nid node' 0 = s.module.words nid node 0 := by
        rcases stored with same | ⟨_, _, _, _, first⟩
        · exact same
        · exact absurd (Restarts.unique first restarts).2 fun zero => not_isPerf_zero (zero ▸ isPerf)
      rw [same, called]
      refine turns.call (calls ▸ longer) fun t member cpu => ?_
      rw [instant]
      exact BitVec.le_trans (align.read nid node before t member) (timely.2 cpu).1

end Steps

/-! ### Runs -/

section Steps

variable {s : ModuleState} {a : ModuleAction} {nid : Nat}

/-- A step that makes a call of `energy_restart` on a node makes no other there. -/
theorem energyCall_of_not_restarts (quiet : ¬ s.Restarts a nid energyIndex) :
    energyCall nid (s, a) = none := by
  cases a with
  | sampler tid input =>
    cases thread : s.samplers tid with
    | none => simp [energyCall, thread]
    | some th =>
      rw [energyCall_sampler thread, Option.bind_eq_none_iff]
      exact fun _ _ => if_neg fun both => quiet ⟨tid, input, th, rfl, thread, both⟩
  | _ => rfl

theorem energyCall_of_restarts {node : XstatNode} {tid : Nat} {input : Input}
    (restarts : s.Restarts (.sampler tid input) nid energyIndex) (there : s.xstatNodes nid = some node) :
    energyCall nid (s, .sampler tid input) =
      some (input.energyStatus, energyDelta (node.ctxs energyIndex).value input.energyStatus) := by
  obtain ⟨_, _, th, ⟨⟩, thread, both⟩ := restarts
  rw [energyCall_sampler thread, there, Option.bind_some, if_pos both]

theorem energyCall_withTotal {n : Nat} (a : PerfAction n) (total total' : Word) :
    energyCall nid (s, a.withTotal total) = energyCall nid (s, a.withTotal total') := by
  unfold PerfAction.withTotal
  split <;> rfl

end Steps

/-- The energy words of a node's samples are the results of the calls of `energy_restart`. -/
theorem words_energy {maxNumnodes : Nat} {nodeOnline : Nat → Bool}
    {trace : List (ModuleState × ModuleAction)} {s : ModuleState}
    (run : Run (ModuleState.step maxNumnodes) (xstatInit maxNumnodes nodeOnline) trace s) :
    CtrlInv maxNumnodes s ∧ ∀ nid node, s.xstatNodes nid = some node →
      s.words nid node energyIndex = (energyCalls nid trace).map Prod.snd := by
  induction run with
  | nil =>
    refine ⟨ctrlInv_xstatInit maxNumnodes nodeOnline, fun nid node there => ?_⟩
    show wordsOf [] ((xstatInit maxNumnodes nodeOnline).stage nid) node energyIndex = []
    rw [stage_xstatInit]
    rfl
  | snoc _ taken ih =>
    obtain ⟨ctrl, before⟩ := ih
    refine ⟨ctrl.step taken, fun nid node' there => ?_⟩
    obtain ⟨node, was, words⟩ := words_of_step ctrl taken there energyIndex
    rw [energyCalls_snoc, List.map_append, ← before nid node was]
    cases words with
    | result tid input action restarts words done =>
      subst action
      rw [words, energyCall_of_restarts restarts was, ((restartCounter_energy done).1 rfl).2]
      rfl
    | same quiet words =>
      rw [words, energyCall_of_not_restarts quiet]
      exact (List.append_nil _).symm

/-- The steps of the module in a run, up to what `perf_restart` returned in them. -/
def moduleSteps (trace : List (PerfState m.nrCpuIds × PerfAction m.nrCpuIds)) :
    List (ModuleState × ModuleAction) :=
  trace.map fun x => (x.1.module, x.2.withTotal 0)

/-- A run of the module with its contexts is one of the module. -/
theorem PerfState.module_run {trace : List (PerfState m.nrCpuIds × PerfAction m.nrCpuIds)}
    {s : PerfState m.nrCpuIds} (run : Run (PerfState.step ρ) (PerfState.start m) trace s) :
    ∃ steps, Run (ModuleState.step m.maxNumnodes) (xstatInit m.maxNumnodes m.nodeOnline) steps s.module ∧
      ∀ nid, energyCalls nid steps = energyCalls nid (moduleSteps trace) := by
  induction run with
  | nil => exact ⟨[], .nil, fun _ => rfl⟩
  | snoc _ taken ih =>
    obtain ⟨steps, run, calls⟩ := ih
    obtain ⟨⟨total, step⟩, _⟩ := PerfState.module_of_step taken
    refine ⟨_, run.snoc step, fun nid => ?_⟩
    rw [moduleSteps, List.map_append, List.map_singleton, energyCalls_snoc, energyCalls_snoc, calls nid,
      energyCall_withTotal _ total 0]
    rfl

/-- What all runs keep whose perf events go up by less than the threshold. -/
structure SampleInv (s : PerfState m.nrCpuIds) : Prop where
  module : ModuleInv m.maxNumnodes s.module
  read : ReadInv s.module
  clock : ClockInv s.module
  perf : WindowInv s
  result : ResultInv s

theorem SampleInv.step {s s' : PerfState m.nrCpuIds} {a : PerfAction m.nrCpuIds} (inv : SampleInv s)
    (small : ∀ n ∈ s.increments a, n < PerfEventValue.perfOverflowThreshold)
    (taken : s.step ρ a = some s') : SampleInv s' := by
  obtain ⟨⟨_, step⟩, _⟩ := PerfState.module_of_step taken
  have ctrl := inv.module.ctrl
  exact ⟨inv.module.step step, inv.read.step ctrl step, inv.clock.step ctrl inv.read step,
    inv.perf.step ctrl inv.module.ctxs small taken, inv.result.step ctrl taken⟩

/-- The word of a sample is among the words of its counter. -/
theorem words_of_sample {s : ModuleState} {nid k : Nat} {record : Record}
    (sample : (s.samples nid)[k]? = some record) (node : XstatNode) (i : Fin xstatNcnt) :
    (s.words nid node i)[k]? = some (record i) := by
  have inside := (List.getElem?_eq_some_iff.mp sample).1
  rw [words, wordsOf, List.getElem?_append_left (by rwa [List.length_map]), List.getElem?_map, sample]
  rfl

theorem isChain_getElem? {α : Type} {R : α → α → Prop} {l : List α} (chain : l.IsChain R) {k : Nat}
    {x y : α} (first : l[k]? = some x) (second : l[k + 1]? = some y) : R x y := by
  obtain ⟨_, rfl⟩ := List.getElem?_eq_some_iff.mp first
  obtain ⟨inside, rfl⟩ := List.getElem?_eq_some_iff.mp second
  exact List.isChain_iff_getElem.mp chain k inside

/-- The windows of the deltas of a sample `next` and the one before it: of the interval between their
timestamps, modulo `2 ^ 64`, of the energy between the readings of their passes, and of a perf counter
between the two calls. -/
structure Windows (trace : List (PerfState m.nrCpuIds × PerfAction m.nrCpuIds)) (nid k : Nat)
    (i : Fin xstatNcnt) (record next : Record) (prev this : PerfCall m.nrCpuIds) : Prop where
  interval : ReachesBack record next
  energy : ∃ first second, (energyCalls nid (moduleSteps trace))[k]? = some first ∧
    (energyCalls nid (moduleSteps trace))[k + 1]? = some second ∧
    record energyIndex = first.2 ∧ next energyIndex = second.2 ∧ second.2 = energyDelta first.1 second.1
  results : prev.result = record i ∧ this.result = next i

/-- What the timestamps say of these windows: no interval wraps, and each call comes after the timestamp
of its pass and before the next one. -/
structure TimedWindows (record next : Record) (prev this : PerfCall m.nrCpuIds) : Prop where
  interval : Follows record next
  order : ∀ cpu, record.ts ≤ prev.instant cpu ∧ prev.instant cpu ≤ next.ts ∧ next.ts ≤ this.instant cpu

/-- The condition of the runs below: the events go up by less than the threshold. -/
def PerfState.Small (s : PerfState m.nrCpuIds) (a : PerfAction m.nrCpuIds) : Prop :=
  ∀ n ∈ s.increments a, n < PerfEventValue.perfOverflowThreshold

theorem sampleInv_start : SampleInv (PerfState.start m) :=
  ⟨moduleInv_xstatInit .., readInv_xstatInit .., clockInv_xstatInit _ _, windowInv_start,
    resultInv_start⟩

/-- In a run whose calls of `get_time` return the time, so do the timestamps. -/
theorem alignInv_of_run {trace : List (PerfState m.nrCpuIds × PerfAction m.nrCpuIds)}
    {s : PerfState m.nrCpuIds} (run : Run (PerfState.step ρ) (PerfState.start m) trace s)
    (small : ∀ x ∈ trace, x.1.Small x.2) (reads : ∀ x ∈ trace, x.1.ReadsClock x.2) : AlignInv s := by
  have both := run.invariant (P := fun s => SampleInv s ∧ AlignInv s)
    (fun s a => s.Small a ∧ s.ReadsClock a) ⟨sampleInv_start, alignInv_start⟩
    (fun _ _ _ before met taken => ⟨before.1.step met.1 taken,
      before.2.step before.1.perf before.1.result before.1.module.ctrl met.2 taken⟩)
    fun x member => ⟨small x member, reads x member⟩
  exact both.2

/-- **The perf counters of the samples.** In every run of the module, with any number of switches of any
node and whatever fails, on a machine whose events go up by less than the threshold from one reading to
the next: the deltas of a sample have the windows that reach back to the sample before; and a perf
counter gives the events of its window exactly if each CPU's event was there, read by the call before or
created before anything happened since, or nothing happened in the window. Where besides every call of
`get_time` in a `ts_restart` returned the time, the timestamps tell the order of these calls. -/
theorem perf_window_iff {trace : List (PerfState m.nrCpuIds × PerfAction m.nrCpuIds)}
    {s : PerfState m.nrCpuIds} (run : Run (PerfState.step ρ) (PerfState.start m) trace s)
    (small : ∀ x ∈ trace, ∀ n ∈ x.1.increments x.2, n < PerfEventValue.perfOverflowThreshold)
    {nid : Nat} {node : XstatNode} (there : s.module.xstatNodes nid = some node) {k : Nat}
    {record next : Record} (sample : (s.module.samples nid)[k]? = some record)
    (after : (s.module.samples nid)[k + 1]? = some next) {i : Fin xstatNcnt} (perf : IsPerf i) :
    ∃ prev this, (s.calls nid i)[k]? = some prev ∧ (s.calls nid i)[k + 1]? = some this ∧
      Windows trace nid k i record next prev this ∧
      ((∀ x ∈ trace, x.1.ReadsClock x.2) → TimedWindows record next prev this) ∧
      (Exact m nid i prev this ↔ Covered m nid i prev this) := by
  have inv : SampleInv s := run.invariant PerfState.Small sampleInv_start
    (fun _ _ _ before small taken => before.step small taken) small
  -- The calls of the two passes.
  have callOf : ∀ {j : Nat} {record : Record}, (s.module.samples nid)[j]? = some record →
      ∃ call, (s.calls nid i)[j]? = some call ∧ call.result = record i := by
    intro j record sample
    have word := words_of_sample sample node i
    rw [inv.result nid node there i perf, List.getElem?_map] at word
    exact Option.map_eq_some_iff.mp word
  obtain ⟨prev, called, result⟩ := callOf sample
  obtain ⟨this, calledNext, resultNext⟩ := callOf after
  -- The readings of the two passes.
  obtain ⟨steps, moduleRun, same⟩ := PerfState.module_run run
  have readingOf : ∀ {j : Nat} {record : Record}, (s.module.samples nid)[j]? = some record →
      ∃ call, (energyCalls nid steps)[j]? = some call ∧ call.2 = record energyIndex := by
    intro j record sample
    have word := words_of_sample sample node energyIndex
    rw [(words_energy moduleRun).2 nid node there, List.getElem?_map] at word
    exact Option.map_eq_some_iff.mp word
  obtain ⟨first, read, energy⟩ := readingOf sample
  obtain ⟨second, readNext, energyNext⟩ := readingOf after
  refine ⟨prev, this, called, calledNext, ?_, fun reads => ?_,
    isChain_getElem? (inv.perf.chain nid i) called calledNext⟩
  · constructor
    case interval => exact isChain_getElem? (inv.clock nid node there).chain sample after
    case energy =>
      rw [← same nid]
      exact ⟨first, second, read, readNext, energy.symm, energyNext.symm,
        isChain_getElem? (energyCalls_chain moduleRun nid).2 read readNext⟩
    case results => exact ⟨result, resultNext⟩
  · have align := alignInv_of_run run small reads
    have turns := align.turns nid node there i perf
    have ts := words_of_sample sample node 0
    have tsNext := words_of_sample after node 0
    constructor
    case interval =>
      exact isChain_getElem? (chain_of_inv inv.clock align.forward inv.read there).1 sample after
    case order =>
      exact fun cpu => ⟨turns.starts k _ prev ts called cpu, turns.ends k prev _ called tsNext cpu,
        turns.starts (k + 1) _ this tsNext calledNext cpu⟩

/-! ### A pause between two samples -/

/-- One node with one CPU, on which five events happen at the instant two. -/
def fiveEvents : Machine where
  maxNumnodes := 1
  nodeOnline := fun _ => true
  nrCpuIds := 1
  mask := fun _ => Finset.univ
  hardware := .fiveAtTwo _

/-- The actions, all at one instant. -/
def allAt (instant : Word) (actions : List ModuleAction) : List (PerfAction 1) :=
  actions.map fun action => ⟨action, instant, fun _ => instant, fun _ => true⟩

/-- The node's sampler makes `count` steps. -/
def steps (tid count : Nat) (now : Word) : List ModuleAction :=
  List.replicate count (.sampler tid { (default : Input) with now := now })

/-- The node is switched on, and its sampler makes `count` steps. -/
def switchedOnAgain (tid count : Nat) (now : Word) : List ModuleAction :=
  [.storeCtrlAttr "on".toList, .startStat true, .startStat true] ++ steps tid count now

/-- The node is sampled and switched off, and its sampler ends. -/
def sampledOnce : List ModuleAction :=
  switchedOnAgain 0 20 1 ++ [.storeCtrlAttr "off".toList, .stopStat] ++ steps 0 32 1 ++
    [.stopStat, .stopStat]

/-- A check that admits exactly the steps whose `get_time` returns the time. -/
def readsClockCheck (s : PerfState m.nrCpuIds) (a : PerfAction m.nrCpuIds) : Bool :=
  match a.action with
  | .sampler tid input => (s.module.samplers tid).all fun th =>
    th.pc != .restart 0 || (decide (s.clock ≤ input.now) && decide (input.now ≤ a.now))
  | _ => true

theorem readsClock_of_check {s : PerfState m.nrCpuIds} {a : PerfAction m.nrCpuIds}
    (admitted : readsClockCheck s a = true) : s.ReadsClock a := by
  intro tid input th is thread place
  simp only [readsClockCheck, is, thread, Option.all_some, place] at admitted
  simpa using admitted

/-- A step of the machine that reads the time, and no increment above the threshold. -/
def smallStep : PerfState fiveEvents.nrCpuIds → PerfAction fiveEvents.nrCpuIds →
    Option (PerfState fiveEvents.nrCpuIds) :=
  guarded (fun s a => readsClockCheck s a &&
    (s.increments a).all (· < PerfEventValue.perfOverflowThreshold)) (PerfState.step .exact)

/-- The node has two samples, and the test says yes to the calls of its cycle counter in them. -/
def twoSamples (test : PerfCall fiveEvents.nrCpuIds → PerfCall fiveEvents.nrCpuIds → Bool)
    (s : PerfState fiveEvents.nrCpuIds) : Bool :=
  (s.module.samples 0).length == 2 && (s.module.xstatNodes 0).isSome &&
    match s.calls 0 2 with
    | [prev, this] => test prev this
    | _ => false

theorem run_of_twoSamples
    {test : PerfCall fiveEvents.nrCpuIds → PerfCall fiveEvents.nrCpuIds → Bool}
    {actions : List (PerfAction fiveEvents.nrCpuIds)}
    (done : (exec smallStep (PerfState.start fiveEvents) actions).any (twoSamples test)) :
    ∃ trace s node record next prev this,
      Run (PerfState.step .exact) (PerfState.start fiveEvents) trace s ∧
      (∀ x ∈ trace, ∀ n ∈ x.1.increments x.2, n < PerfEventValue.perfOverflowThreshold) ∧
      (∀ x ∈ trace, x.1.ReadsClock x.2) ∧ s.module.xstatNodes 0 = some node ∧
      s.module.samples 0 = [record, next] ∧ s.calls 0 2 = [prev, this] ∧ test prev this := by
  obtain ⟨trace, s, run, _, passed⟩ := run_of_exec_any done
  obtain ⟨run, checks⟩ := run.of_guarded
  simp only [twoSamples, Bool.and_eq_true, beq_iff_eq] at passed
  obtain ⟨⟨two, present⟩, calls⟩ := passed
  obtain ⟨record, next, samples⟩ := List.length_eq_two.mp two
  obtain ⟨node, there⟩ := Option.isSome_iff_exists.mp present
  split at calls
  · next prev this both =>
    have check : ∀ x ∈ trace, _ ∧ _ := fun x member => Bool.and_eq_true_iff.mp (checks x member)
    refine ⟨trace, s, node, record, next, prev, this, run, fun x member n inside => ?_,
      fun x member => readsClock_of_check (check x member).1, there, samples, both, calls⟩
    exact of_decide_eq_true (List.all_eq_true.mp (check x member).2 n inside)
  · cases calls

/-- A sampler that goes on counts all five events. -/
theorem perf_window_steady :
    ∃ trace s record next prev this,
      Run (PerfState.step .exact) (PerfState.start fiveEvents) trace s ∧
      s.module.samples 0 = [record, next] ∧ s.calls 0 2 = [prev, this] ∧
      TimedWindows record next prev this ∧ Exact fiveEvents 0 2 prev this := by
  have done : (exec smallStep (PerfState.start fiveEvents) (allAt 1 (switchedOnAgain 0 38 1) ++
      allAt 2 (steps 0 17 2))).any (twoSamples fun prev this =>
        this.ctx == prev.ctx && (List.finRange 1).all fun cpu => (this.born cpu).isSome) := by
    decide +kernel
  obtain ⟨trace, s, node, record, next, prev, this, run, small, reads, there, samples, calls, same⟩ :=
    run_of_twoSamples done
  have sample : (s.module.samples 0)[0]? = some record := by rw [samples]; rfl
  have after : (s.module.samples 0)[0 + 1]? = some next := by rw [samples]; rfl
  have perf : IsPerf 2 := rfl
  obtain ⟨_, _, first, second, _, timed, exact⟩ := perf_window_iff run small there sample after perf
  rw [calls] at first second
  cases first
  cases second
  simp only [Bool.and_eq_true, beq_iff_eq, List.all_eq_true] at same
  refine ⟨trace, s, record, next, prev, this, run, samples, calls, timed reads,
    exact.mpr fun cpu _ => .inl ?_⟩
  obtain ⟨b, born⟩ := Option.isSome_iff_exists.mp (same.2 cpu (List.mem_finRange cpu))
  exact ⟨b, born, .inl same.1⟩

/-- Two samples with a pause between them, in which the five events happen: the second sample does not
count them. -/
theorem perf_window_missed :
    ¬ ∀ (m : Machine) (ρ : Rounding) trace s,
      Run (PerfState.step ρ) (PerfState.start m) trace s →
      (∀ x ∈ trace, ∀ n ∈ x.1.increments x.2, n < PerfEventValue.perfOverflowThreshold) →
      ∀ nid node k record next i prev this, s.module.xstatNodes nid = some node →
        (s.module.samples nid)[k]? = some record → (s.module.samples nid)[k + 1]? = some next →
        IsPerf i → (s.calls nid i)[k]? = some prev → (s.calls nid i)[k + 1]? = some this →
        Exact m nid i prev this := by
  intro all
  have done : (exec smallStep (PerfState.start fiveEvents) (allAt 1 sampledOnce ++
      allAt 2 (switchedOnAgain 1 38 2))).any (twoSamples fun prev this =>
        !decide (Exact fiveEvents 0 2 prev this)) := by
    decide +kernel
  obtain ⟨trace, s, node, record, next, prev, this, run, small, _, there, samples, calls, missed⟩ :=
    run_of_twoSamples done
  have exact := all fiveEvents .exact trace s run small 0 node 0 record next 2 prev this there
    (samples ▸ rfl) (samples ▸ rfl) rfl (calls ▸ rfl) (calls ▸ rfl)
  simp [exact] at missed

end Xstats.Xstat
