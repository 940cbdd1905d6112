/-
**The words of the samples, counter by counter.**

The word of counter `i` in a sample is what the call of its `restart` returned in that pass of
`roll_buffer`. So the words of a node's samples, with that of the pass under way if it has got beyond
the counter, are the results of the calls, each once and in order.

* `restartCounter_total`: what the calls of the perf counters return.
* `words_of_step`: a step appends the result of the call that it makes, and no other.
-/

import Xstats.Xstat.Timestamps

namespace Xstats.Xstat

open Transition ModuleState

/-- The words of counter `i` in the samples, and in the working buffer if the pass has filled it. -/
def wordsOf (records : List Record) (stage : Nat) (node : XstatNode) (i : Fin xstatNcnt) : List Word :=
  (records.map fun record => record i) ++ if i.val < stage then [node.workingBuf i] else []

/-- The words of counter `i` so far, of a node. -/
def ModuleState.words (s : ModuleState) (nid : Nat) (node : XstatNode) (i : Fin xstatNcnt) : List Word :=
  wordsOf (s.samples nid) (s.stage nid) node i

/-- The action makes the call of counter `i` on the node, in `roll_buffer`. -/
def ModuleState.Restarts (s : ModuleState) (a : ModuleAction) (nid : Nat) (i : Fin xstatNcnt) : Prop :=
  ∃ tid input th, a = .sampler tid input ∧ s.samplers tid = some th ∧ th.nid = nid ∧ th.pc = .restart i

/-! ### What a call returns -/

/-- The word that an iteration of `roll_buffer` stores for a perf counter. -/
theorem restartCounter_total {node node' : XstatNode} {i : Fin xstatNcnt} {input : Input}
    (perf : (nodeCounters i).restart = .perfRestart)
    (done : node.restartCounter i input = some node') : node'.workingBuf i = input.total := by
  simp only [XstatNode.restartCounter, perf, Option.bind_eq_bind, Option.bind_eq_some_iff,
    Option.pure_def, Option.some.injEq, Prod.exists] at done
  obtain ⟨ctxs, word, called, rfl⟩ := done
  simp only [callRestart] at called
  split at called
  · cases called
    exact Function.update_self ..
  · cases called

/-! ### The step of a thread -/

/-- A step between the calls leaves the words as they are. -/
theorem wordsOf_quiet {records more : List Record} {stage stage' : Nat} {node node' : XstatNode}
    (silent : more = []) (same : stage' = stage) (workingBuf : node'.workingBuf = node.workingBuf)
    (i : Fin xstatNcnt) : wordsOf (records ++ more) stage' node' i = wordsOf records stage node i := by
  rw [silent, List.append_nil, same, wordsOf, wordsOf, workingBuf]

/-- The iteration of counter `k`. -/
theorem wordsOf_restart {records : List Record} {node node' : XstatNode} {k : Fin xstatNcnt}
    (others : ∀ j, j ≠ k → node'.workingBuf j = node.workingBuf j) (i : Fin xstatNcnt) :
    wordsOf records (k.val + 1) node' i =
      wordsOf records k.val node i ++ if i = k then [node'.workingBuf i] else [] := by
  unfold wordsOf
  by_cases same : i = k
  · subst same
    simp
  · have place : i.val < k.val + 1 ↔ i.val < k.val := by
      have apart : i.val ≠ k.val := fun eq => same (Fin.ext eq)
      omega
    rw [others i same]
    simp [same, place]

/-- The end of a pass. -/
theorem wordsOf_commit {records : List Record} {node node' : XstatNode} (i : Fin xstatNcnt) :
    wordsOf (records ++ [node.workingBuf]) 0 node' i = wordsOf records xstatNcnt node i := by
  simp [wordsOf, i.isLt]

theorem ThreadMove.words {nid tid nextCtx : Nat} {shouldStop : Bool} {node : XstatNode}
    {input : Input} {pc : SamplerPc} {after : ThreadStep} (records : List Record)
    (move : ThreadMove nid tid shouldStop nextCtx input pc (some node) after)
    (i : Fin xstatNcnt) :
    ∃ node', after.node = some node' ∧
      wordsOf (records ++ samplesOf nid after.events) after.pc.stage node' i =
        wordsOf records pc.stage node i ++ (if pc = .restart i then [node'.workingBuf i] else []) ∧
      (pc = .restart i → node.restartCounter i input = some node') := by
  have initCounter : ∀ allocated k, (node.initCounter allocated k).workingBuf = node.workingBuf := by
    intro allocated k
    unfold XstatNode.initCounter
    split <;> rfl
  cases move with
  | run | cancel | afterRoll | sleep | wake | again =>
    refine ⟨node, rfl, ?_, by simp⟩
    rw [if_neg (by simp), List.append_nil]
    exact wordsOf_quiet rfl rfl rfl i
  | @initPerf _ k | @init _ k =>
    refine ⟨_, rfl, ?_, by simp⟩
    rw [if_neg (by simp), List.append_nil]
    exact wordsOf_quiet (samplesOf_afterInit nid nid tid k) (stage_afterInit nid tid k) (initCounter ..) i
  | @restartPerf _ node' k _ _ _ done | @restart _ node' k _ done =>
    refine ⟨node', rfl, ?_, fun here => by cases here; exact done⟩
    have spec := XstatNode.restartCounter_spec done
    rw [stage_afterRestart]
    show wordsOf (records ++ []) _ _ _ = _
    rw [List.append_nil, wordsOf_restart spec.workingBuf_eq]
    simp only [SamplerPc.restart.injEq, eq_comm]
    rfl
  | commit =>
    refine ⟨node.commit, rfl, ?_, by simp⟩
    have sampled : samplesOf nid [.sample nid node.workingBuf] = [node.workingBuf] := by
      simp [samplesOf]
    rw [if_neg (by simp), List.append_nil, sampled]
    exact wordsOf_commit i
  | leave check =>
    rcases check with rfl | rfl
    all_goals
      refine ⟨node, rfl, ?_, by simp⟩
      rw [if_neg (by simp), List.append_nil]
      exact wordsOf_quiet rfl rfl rfl i
  | @exitPerf _ k | @exit _ k =>
    refine ⟨node, rfl, ?_, by simp⟩
    rw [if_neg (by simp), List.append_nil]
    exact wordsOf_quiet (samplesOf_afterExit nid nid tid k) (stage_afterExit nid tid k) rfl i

/-! ### The steps of the module -/

section Steps

variable {maxNumnodes : Nat} {s s' : ModuleState}

/-- What a step does to the words of a counter: it makes the counter's call on the node and appends its
result, or it leaves them as they are. -/
inductive WordsStep (s s' : ModuleState) (a : ModuleAction) (nid : Nat) (i : Fin xstatNcnt)
    (node node' : XstatNode) : Prop
  | result (tid : Nat) (input : Input) (action : a = .sampler tid input) (restarts : s.Restarts a nid i)
      (words : s'.words nid node' i = s.words nid node i ++ [node'.workingBuf i])
      (done : node.restartCounter i input = some node')
  | same (quiet : ¬ s.Restarts a nid i) (words : s'.words nid node' i = s.words nid node i)

/-- **One step** and the words of a counter. -/
theorem words_of_step (inv : CtrlInv maxNumnodes s) {a : ModuleAction}
    (taken : s.step maxNumnodes a = some s') {nid : Nat} {node' : XstatNode}
    (there : s'.xstatNodes nid = some node') (i : Fin xstatNcnt) :
    ∃ node, s.xstatNodes nid = some node ∧ WordsStep s s' a nid i node node' := by
  by_cases thread : ∃ tid input, a = .sampler tid input
  · obtain ⟨tid, input, rfl⟩ := thread
    cases move_of_step taken with
    | @sampler _ _ th after thread move =>
      have alive := move.kept.alive
      have tasks : (s.setNode th.nid after.node).task = s.task := task_setNode_of_eq move.kept.task_eq
      have restarts : s.Restarts (.sampler tid input) nid i ↔ th.nid = nid ∧ th.pc = .restart i := by
        constructor
        · rintro ⟨_, _, th', ⟨⟩, found, home, place⟩
          rw [thread] at found
          cases found
          exact ⟨home, place⟩
        · exact fun both => ⟨tid, input, th, rfl, thread, both⟩
      change (s.setNode th.nid after.node).xstatNodes nid = some node' at there
      rw [xstatNodes_setNode] at there
      by_cases own : nid = th.nid
      · subst own
        rw [if_pos rfl] at there
        obtain ⟨node, before, _⟩ := task_eq_some (inv.owned tid th thread alive)
        obtain ⟨old, now⟩ : s.stage th.nid = th.pc.stage ∧
            onThread (Function.update s.samplers tid (some { th with pc := after.pc }))
              (fun _ pc => pc.stage) 0 (s.task th.nid) = after.pc.stage :=
          inv.onThread_own thread alive after.pc
        rw [before] at move
        obtain ⟨found, node_eq, words, done⟩ := move.words (s.samples th.nid) i
        rw [there] at node_eq
        cases node_eq
        have after_eq : ModuleState.words { (s.setNode th.nid after.node).setSampler tid
            { th with pc := after.pc } with
              nextCtx := after.nextCtx
              history := s.history ++ after.events } th.nid node' i =
            wordsOf (s.samples th.nid ++ samplesOf th.nid after.events) after.pc.stage node' i := by
          show wordsOf (samplesOf th.nid (s.history ++ after.events))
            (onThread (Function.update s.samplers tid _) _ 0 ((s.setNode _ _).task th.nid)) node' i = _
          rw [tasks, samplesOf_append, now]
          rfl
        have before_eq : s.words th.nid node i = wordsOf (s.samples th.nid) th.pc.stage node i := by
          rw [ModuleState.words, old]
        refine ⟨node, before, ?_⟩
        by_cases here : th.pc = .restart i
        · refine .result tid input rfl (restarts.mpr ⟨rfl, here⟩) ?_ (done here)
          rw [after_eq, before_eq, words, if_pos here]
        · refine .same (fun makes => here (restarts.mp makes).2) ?_
          rw [after_eq, before_eq, words, if_neg here, List.append_nil]
      · rw [if_neg own] at there
        refine ⟨node', there, .same (fun makes => own (restarts.mp makes).1.symm) ?_⟩
        show wordsOf (samplesOf nid (s.history ++ after.events))
          (onThread (Function.update s.samplers tid _) _ 0 ((s.setNode _ _).task nid)) node' i = _
        rw [tasks, samplesOf_append, samplesOf_other move own, List.append_nil,
          inv.onThread_other thread _ own]
        rfl
  · have other : ∀ tid input, a ≠ .sampler tid input := fun tid input is => thread ⟨tid, input, is⟩
    obtain ⟨node, before, move⟩ := nodeMove_of_step taken other there
    have stage : s'.stage nid = s.stage nid :=
      inv.onThread_step (fun _ => rfl) (fun _ => rfl) (fun _ => rfl) taken other nid
    refine ⟨node, before, .same (fun ⟨tid, input, _, is, _⟩ => other tid input is) ?_⟩
    rw [words, words, wordsOf, wordsOf, ModuleState.samples, history_of_step taken other, stage,
      move.sameContexts.2]
    rfl

end Steps

end Xstats.Xstat
