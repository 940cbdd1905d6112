/-
**What the xstat module is for**: the sampling service, and that the module provides it.

The service knows no threads, locks or ring indices. It is on or off, nodes join and leave it, and each
node has a queue of samples that are taken, read, discarded, or lost to newer ones where the queue is full.

* `Service.delivered`: in every history the service allows, what was read of a node and what is pending
  there are samples of it, each once and in order, and no more than the capacity is pending.
* `module_refines`: each step of the module is a step of the service, or none.
* `module_provides_service`: what can be seen of a run of the module, the service allows.
-/

import Xstats.Lib.Simulation
import Xstats.Xstat.Consumer

namespace Xstats.Xstat

open Transition

/-! ### The service -/

section Service

/-- The service, for nodes `ι` and samples `ρ`. -/
structure Service (ι ρ : Type) where
  on : Bool
  /-- The nodes that take part. -/
  sampled : ι → Prop
  pending : ι → List ρ

/-- What can be seen of the service. -/
inductive ServiceEvent (ι ρ : Type)
  | switchOn
  | switchOff
  | joins (i : ι)
  | leaves (i : ι)
  | sample (i : ι) (record : ρ)
  | read (i : ι) (records : List ρ)
  | reset (i : ι)

variable {ι ρ : Type} [DecidableEq ι]

namespace Service

/-- A queue with room for `capacity` samples takes another one. -/
def enqueue (capacity : Nat) (queue : List ρ) (record : ρ) : List ρ :=
  (if queue.length < capacity then queue else queue.drop 1) ++ [record]

/-- What the service allows. It is not switched on before every node has left it, nodes join it while it
is on and leave it while it is off, and a read takes something if there is anything. -/
inductive Step (capacity : Nat) (v : Service ι ρ) : ServiceEvent ι ρ → Service ι ρ → Prop
  | switchOn (off : v.on = false) (idle : ∀ i, ¬ v.sampled i) :
      Step capacity v .switchOn { v with on := true }
  | switchOff (on : v.on = true) : Step capacity v .switchOff { v with on := false }
  | joins {i} (on : v.on = true) (idle : ¬ v.sampled i) :
      Step capacity v (.joins i) { v with sampled := Function.update v.sampled i True }
  | leaves {i} (off : v.on = false) (sampled : v.sampled i) :
      Step capacity v (.leaves i) { v with sampled := Function.update v.sampled i False }
  | sample {i} (record : ρ) (sampled : v.sampled i) :
      Step capacity v (.sample i record)
        { v with pending := Function.update v.pending i (enqueue capacity (v.pending i) record) }
  | read {i records rest} (front : v.pending i = records ++ rest) (all : records = [] → rest = []) :
      Step capacity v (.read i records) { v with pending := Function.update v.pending i rest }
  | reset {i} : Step capacity v (.reset i) { v with pending := Function.update v.pending i [] }

/-- The service before it is first switched on. -/
def start : Service ι ρ := ⟨false, fun _ => False, fun _ => []⟩

end Service

namespace ServiceEvent

/-- The samples of a node in a history. -/
def samples (i : ι) (history : List (ServiceEvent ι ρ)) : List ρ :=
  history.flatMap fun
    | .sample j record => if j = i then [record] else []
    | _ => []

/-- What was read of a node in a history. -/
def delivered (i : ι) (history : List (ServiceEvent ι ρ)) : List ρ :=
  history.flatMap fun
    | .read j records => if j = i then records else []
    | _ => []

end ServiceEvent

namespace Service

open ServiceEvent

/-- **What the service delivers.** -/
theorem delivered_sublist {capacity : Nat} (room : 0 < capacity) {history : List (ServiceEvent ι ρ)}
    {v : Service ι ρ} (does : Does (Step capacity) start history v) (i : ι) :
    (delivered i history ++ v.pending i).Sublist (samples i history) ∧
      (v.pending i).length ≤ capacity := by
  induction does with
  | nil => exact ⟨List.Sublist.refl _, Nat.zero_le _⟩
  | @snoc history v v' event _ step ih =>
    obtain ⟨sublist, few⟩ := ih
    cases step with
    | switchOn | switchOff | joins | leaves =>
      simpa [delivered, samples] using And.intro sublist few
    | @sample j record sampled =>
      by_cases same : j = i
      · subst same
        have kept : (if (v.pending j).length < capacity then v.pending j else (v.pending j).drop 1).Sublist
            (v.pending j) := by
          split
          · exact List.Sublist.refl _
          · exact List.drop_sublist 1 _
        constructor
        · simp only [delivered, samples, List.flatMap_append, List.flatMap_singleton, if_true,
            List.append_nil, Function.update_self, enqueue, ← List.append_assoc]
          exact (((List.Sublist.refl _).append kept).trans sublist).append (List.Sublist.refl _)
        · simp only [Function.update_self, enqueue, List.length_append, List.length_singleton]
          split
          · omega
          · rw [List.length_drop]
            omega
      · have apart : i ≠ j := Ne.symm same
        simpa [delivered, samples, same, Function.update_of_ne apart] using And.intro sublist few
    | @read j records rest front _ =>
      by_cases same : j = i
      · subst same
        rw [front] at sublist few
        rw [List.length_append] at few
        constructor
        · simpa [delivered, samples] using sublist
        · simp only [Function.update_self]
          omega
      · have apart : i ≠ j := Ne.symm same
        simpa [delivered, samples, same, Function.update_of_ne apart] using And.intro sublist few
    | @reset j =>
      by_cases same : j = i
      · subst same
        constructor
        · have shorter := (List.sublist_append_left (delivered j history) (v.pending j)).trans sublist
          simpa [delivered, samples] using shorter
        · simp
      · have apart : i ≠ j := Ne.symm same
        simpa [delivered, samples, Function.update_of_ne apart] using And.intro sublist few

end Service

end Service

/-! ### The module -/

namespace ModuleState

/-- The node has a living sampler. -/
def Sampled (s : ModuleState) (nid : Nat) : Prop :=
  ∃ tid th, s.samplers tid = some th ∧ th.nid = nid ∧ th.pc.Alive

/-- What is pending at a node, nothing if there is no such node. -/
def pendingAt (s : ModuleState) (nid : Nat) : List Record :=
  ((s.xstatNodes nid).map XstatNode.pending).getD []

/-- The module as the service it provides. -/
def view (s : ModuleState) : Service Nat Record := ⟨s.ctrlOn, s.Sampled, s.pendingAt⟩

end ModuleState

/-- What can be seen of a thread's step. -/
def SamplerPc.seen (nid : Nat) (shouldStop : Bool) (node : Option XstatNode) :
    SamplerPc → List (ServiceEvent Nat Record)
  | .created => if shouldStop then [.leaves nid] else []
  | .commit => node.toList.map fun node => .sample nid node.workingBuf
  | .exitCounters i => if (nextCounter i).isNone then [.leaves nid] else []
  | _ => []

namespace ModuleState

/-- What can be seen of a step. -/
def seen (s : ModuleState) : ModuleAction → List (ServiceEvent Nat Record)
  | .storeCtrlAttr buf =>
    match storeCtrlAttr buf with
    | some .startStat => if s.ctrlOn then [] else [.switchOn]
    | some .stopStat => if s.ctrlOn then [.switchOff] else []
    | none => []
  | .startStat created =>
    match s.ctrl with
    | .starting i => if created ∧ (s.xstatNodes i).isSome then [.joins i] else []
    | _ => []
  | .sampler tid _ =>
    match s.samplers tid with
    | some th => th.pc.seen th.nid th.shouldStop (s.xstatNodes th.nid)
    | none => []
  | .storeResetAttr nid count => if count > 0 then [.reset nid] else []
  | .showStatAttr nid =>
    ((s.xstatNodes nid).bind fun node => node.showStatAttr.2).toList.map fun read =>
      .read nid read.records
  | .stopStat | .showLastAttr _ => []

end ModuleState

open ModuleState

section Steps

variable {maxNumnodes : Nat} {s s' : ModuleState}

theorem view_eq {v : Service Nat Record} (on : s'.ctrlOn = v.on)
    (sampled : ∀ nid, s'.Sampled nid ↔ v.sampled nid) (pending : s'.pendingAt = v.pending) :
    s'.view = v := by
  unfold view
  rw [on, funext fun nid => propext (sampled nid), pending]

/-- Nothing was seen. -/
theorem does_nothing (on : s'.ctrlOn = s.ctrlOn) (sampled : ∀ nid, s'.Sampled nid ↔ s.Sampled nid)
    (pending : s'.pendingAt = s.pendingAt) : Does (Service.Step xstatNbuf) s.view [] s'.view := by
  rw [view_eq (v := s.view) on sampled pending]
  exact .nil

/-- One thing was seen. -/
theorem does_one {v : Service Nat Record} {event : ServiceEvent Nat Record}
    (step : Service.Step xstatNbuf s.view event v) (on : s'.ctrlOn = v.on)
    (sampled : ∀ nid, s'.Sampled nid ↔ v.sampled nid) (pending : s'.pendingAt = v.pending) :
    Does (Service.Step xstatNbuf) s.view [event] s'.view := by
  rw [view_eq on sampled pending]
  exact .one step

theorem pendingAt_setNode (s : ModuleState) (nid : Nat) (node : Option XstatNode) :
    (s.setNode nid node).pendingAt =
      Function.update s.pendingAt nid ((node.map XstatNode.pending).getD []) := by
  funext n
  rw [Function.update_apply]
  unfold pendingAt
  rw [xstatNodes_setNode]
  split <;> rfl

theorem pendingAt_of_node {nid : Nat} {node : XstatNode} (there : s.xstatNodes nid = some node) :
    s.pendingAt nid = node.pending := by
  rw [pendingAt, there]
  rfl

/-- Writing to the ring is queueing the sample. -/
theorem XstatNode.pending_commit (node : XstatNode) (indexed : node.ring.WellIndexed xstatNbuf) :
    node.commit.pending = Service.enqueue xstatNbuf node.pending node.workingBuf := by
  have pushed := RingBuffer.Buffer.contents_push indexed ⟨[], node.pending⟩ rfl node.workingBuf
  rw [RingBuffer.Ledger.pending_push] at pushed
  rw [XstatNode.pending, XstatNode.ring_commit]
  exact pushed

/-- Replacing a node by one with the same ring. -/
theorem pendingAt_of_ring {nid : Nat} {node node' : XstatNode} (there : s.xstatNodes nid = some node)
    (same : node'.ring = node.ring) : (s.setNode nid (some node')).pendingAt = s.pendingAt := by
  have kept : node'.pending = node.pending := congrArg (RingBuffer.Buffer.contents xstatNbuf) same
  rw [pendingAt_setNode, Option.map_some, Option.getD_some, kept, ← pendingAt_of_node there,
    Function.update_eq_self]

/-- A living sampler is one that its node names. -/
theorem CtrlInv.sampled_task (inv : CtrlInv maxNumnodes s) {nid : Nat} (sampled : s.Sampled nid) :
    ∃ tid, s.task nid = some (some tid) := by
  obtain ⟨tid, th, thread, rfl, alive⟩ := sampled
  exact ⟨tid, inv.owned tid th thread alive⟩

/-- Where one thread moved, its node is sampled if the thread is still alive, and another node as
before. -/
theorem CtrlInv.sampled_update (inv : CtrlInv maxNumnodes s) {tid : Nat} {th : Sampler}
    (thread : s.samplers tid = some th) (alive : th.pc.Alive) {pc : SamplerPc}
    (samplers : s'.samplers = Function.update s.samplers tid (some { th with pc := pc })) (nid : Nat) :
    s'.Sampled nid ↔ (nid = th.nid ∧ pc.Alive) ∨ (nid ≠ th.nid ∧ s.Sampled nid) := by
  unfold Sampled
  simp only [samplers]
  constructor
  · rintro ⟨t, found, thread', rfl, living⟩
    rcases update_eq_iff.mp thread' with ⟨_, new⟩ | ⟨other, old⟩
    · cases new
      exact .inl ⟨rfl, living⟩
    · refine .inr ⟨fun home => other ?_, t, found, old, rfl, living⟩
      exact inv.alive_unique old thread living alive home
  · rintro (⟨rfl, living⟩ | ⟨apart, t, found, old, rfl, living⟩)
    · exact ⟨tid, { th with pc := pc }, Function.update_self .., rfl, living⟩
    · refine ⟨t, found, ?_, rfl, living⟩
      have other : t ≠ tid := by
        rintro rfl
        rw [thread] at old
        cases old
        exact apart rfl
      exact (Function.update_of_ne other _ _).trans old

/-- Threads that stay where they are. -/
theorem sampled_congr (same : ∀ tid, (s'.samplers tid).map (fun th => (th.nid, th.pc)) =
      (s.samplers tid).map fun th => (th.nid, th.pc)) (nid : Nat) :
    s'.Sampled nid ↔ s.Sampled nid := by
  have found : ∀ u : ModuleState, u.Sampled nid ↔
      ∃ tid pc, (u.samplers tid).map (fun th => (th.nid, th.pc)) = some (nid, pc) ∧ pc.Alive := by
    intro u
    constructor
    · rintro ⟨tid, th, thread, rfl, alive⟩
      exact ⟨tid, th.pc, by rw [thread]; rfl, alive⟩
    · rintro ⟨tid, pc, place, alive⟩
      obtain ⟨th, thread, same⟩ := Option.map_eq_some_iff.mp place
      cases same
      exact ⟨tid, th, thread, rfl, alive⟩
  rw [found s', found s]
  simp only [same]

/-- A write to the ctrl attribute. -/
theorem does_write (inv : CtrlInv maxNumnodes s) {buf : List Char}
    (taken : s.writeCtrl buf = some s') :
    Does (Service.Step xstatNbuf) s.view (s.seen (.storeCtrlAttr buf)) s'.view := by
  have lock := inv.lock
  unfold writeCtrl at taken
  simp only [seen]
  cases decoded : Xstat.storeCtrlAttr buf with
  | none =>
    rw [decoded] at taken
    cases taken
    exact .nil
  | some call =>
    simp only [decoded, enterCall] at taken
    obtain ⟨free, step⟩ := Option.ite_none_right_eq_some.mp taken
    rw [free] at lock
    cases call with
    | startStat =>
      cases on : s.ctrlOn with
      | true =>
        simp only [on, if_true] at step ⊢
        cases step
        exact .nil
      | false =>
        simp only [on, Bool.false_eq_true, if_false] at step ⊢
        cases step
        have idle : ∀ nid, ¬ s.Sampled nid := fun nid sampled => by
          obtain ⟨tid, named⟩ := inv.sampled_task sampled
          exact lock on nid tid named
        exact .one (.switchOn (v := s.view) on idle)
    | stopStat =>
      cases on : s.ctrlOn with
      | true =>
        simp only [on, if_true] at step ⊢
        cases step
        exact .one (.switchOff (v := s.view) on)
      | false =>
        simp only [on, Bool.false_eq_true, if_false] at step ⊢
        cases step
        exact .nil

/-- An iteration of `start_stat`. -/
theorem does_startStat (inv : CtrlInv maxNumnodes s) {created : Bool}
    (taken : s.startStat maxNumnodes created = some s') :
    Does (Service.Step xstatNbuf) s.view (s.seen (.startStat created)) s'.view := by
  have lock := inv.lock
  cases move_of_startStat taken with
  | startSkips here absent =>
    simp only [seen, here, absent, Option.isSome_none, Bool.false_eq_true, and_false, if_false]
    exact .nil
  | @startEnds i _ here beyond =>
    have absent : s.xstatNodes i = none := by
      by_contra there
      obtain ⟨node, there⟩ := Option.ne_none_iff_exists'.mp there
      exact absurd (inv.bounded i _ (task_of_node there)) (Nat.not_lt.mpr beyond)
    simp only [seen, here, absent, Option.isSome_none, Bool.false_eq_true, and_false, if_false]
    exact .nil
  | @startFails i node here there =>
    simp only [seen, here, Bool.false_eq_true, false_and, if_false]
    exact does_nothing rfl (fun _ => Iff.rfl) (pendingAt_of_ring there rfl)
  | @starts i node here there =>
    rw [here] at lock
    simp only [seen, here, there, Option.isSome_some, and_self, if_true]
    have idle : ¬ s.Sampled i := fun sampled => by
      obtain ⟨tid, named⟩ := inv.sampled_task sampled
      exact Nat.lt_irrefl i (lock.2 i tid named)
    refine does_one (.joins lock.1 idle) rfl (fun nid => ?_) (pendingAt_of_ring there rfl)
    show _ ↔ Function.update s.Sampled i True nid
    rw [Function.update_apply]
    constructor
    · rintro ⟨tid, th, thread, rfl, alive⟩
      rcases update_eq_iff.mp thread with ⟨_, new⟩ | ⟨_, old⟩
      · cases new
        rw [if_pos rfl]
        trivial
      · split
        · trivial
        · exact ⟨tid, th, old, rfl, alive⟩
    · split
      · rename_i same
        subst same
        exact fun _ => ⟨s.nextTid, _, Function.update_self .., rfl, by simp [SamplerPc.Alive]⟩
      · rintro ⟨tid, th, thread, rfl, alive⟩
        have old : tid ≠ s.nextTid := by
          rintro rfl
          rw [inv.unborn _ le_rfl] at thread
          cases thread
        exact ⟨tid, th, (Function.update_of_ne old _ _).trans thread, rfl, alive⟩

/-- An iteration of `stop_stat`. -/
theorem does_stopStat (taken : s.stopStat maxNumnodes = some s') :
    Does (Service.Step xstatNbuf) s.view (s.seen .stopStat) s'.view := by
  cases move_of_stopStat taken with
  | stopSkips | stopFaults | stopEnds => exact .nil
  | @stops i tid node th _ _ _ thread =>
    refine does_nothing rfl (sampled_congr fun t => ?_) rfl
    show (Function.update s.samplers tid _ t).map _ = _
    by_cases same : t = tid
    · subst same
      rw [Function.update_self, thread]
      rfl
    · rw [Function.update_of_ne same]
  | @joins i =>
    refine does_nothing rfl (fun _ => Iff.rfl) ?_
    show (s.setNode i _).pendingAt = s.pendingAt
    cases there : s.xstatNodes i with
    | none =>
      rw [Option.map_none, pendingAt_setNode, Option.map_none]
      refine (congrArg _ ?_).trans (Function.update_eq_self i _)
      rw [pendingAt, there]
      rfl
    | some node => exact pendingAt_of_ring there rfl

/-- What a thread's step shows, if it was stopped where it is in `exit_counters`. -/
inductive SamplerMove (nid : Nat) (shouldStop : Bool) (node : XstatNode) (after : ThreadStep) :
    List (ServiceEvent Nat Record) → Prop
  | quiet {node'} (node_eq : after.node = some node') (ring_eq : node'.ring = node.ring)
      (alive : after.pc.Alive) : SamplerMove nid shouldStop node after []
  | leaves (node_eq : after.node = some node) (stopped : shouldStop = true)
      (finished : ¬ after.pc.Alive) : SamplerMove nid shouldStop node after [.leaves nid]
  | samples (node_eq : after.node = some node.commit) (alive : after.pc.Alive) :
      SamplerMove nid shouldStop node after [.sample nid node.workingBuf]

theorem ThreadMove.samplerMove {nid tid nextCtx : Nat} {shouldStop : Bool} {node : XstatNode}
    {input : Input} {pc : SamplerPc} {after : ThreadStep}
    (move : ThreadMove nid tid shouldStop nextCtx input pc (some node) after)
    (exiting : ∀ i, pc = .exitCounters i → shouldStop = true) :
    SamplerMove nid shouldStop node after (pc.seen nid shouldStop (some node)) := by
  have exits : ∀ (i : Fin xstatNcnt) (events : List Event), pc = .exitCounters i →
      SamplerMove nid shouldStop node ⟨(afterExit nid tid i).1, some node, nextCtx, events⟩
        (pc.seen nid shouldStop (some node)) := by
    intro i events here
    have stopped := exiting i here
    subst here
    cases next : nextCounter i with
    | some k =>
      simp only [afterExit, SamplerPc.seen, next, Option.isNone_some, Bool.false_eq_true, if_false]
      exact .quiet rfl rfl (by simp [SamplerPc.Alive])
    | none =>
      simp only [afterExit, SamplerPc.seen, next, Option.isNone_none, if_true]
      exact .leaves rfl stopped (by simp [SamplerPc.Alive])
  cases move with
  | run going =>
    subst going
    exact .quiet rfl rfl (by simp [SamplerPc.Alive])
  | cancel stopped =>
    subst stopped
    exact .leaves rfl rfl (by simp [SamplerPc.Alive])
  | initPerf | init =>
    exact .quiet rfl (XstatNode.ring_initCounter ..) (alive_afterInit nid tid _).1
  | restartPerf _ _ done | restart _ done =>
    exact .quiet rfl (XstatNode.restartCounter_spec done).ring_eq (alive_afterRestart _).1
  | afterRoll | sleep | wake | again => exact .quiet rfl rfl (by simp [SamplerPc.Alive])
  | commit => exact .samples rfl (by simp [SamplerPc.Alive])
  | leave check =>
    rcases check with rfl | rfl
    · exact .quiet rfl rfl (by simp [SamplerPc.Alive])
    · exact .quiet rfl rfl (by simp [SamplerPc.Alive])
  | exitPerf => exact exits _ _ rfl
  | exit => exact exits _ _ rfl

theorem CtrlInv.does_samplerMove (inv : CtrlInv maxNumnodes s) {tid : Nat} {th : Sampler}
    {node : XstatNode} {after : ThreadStep} {events : List (ServiceEvent Nat Record)}
    (thread : s.samplers tid = some th) (alive : th.pc.Alive) (there : s.xstatNodes th.nid = some node)
    (indexed : node.ring.WellIndexed xstatNbuf)
    (move : SamplerMove th.nid th.shouldStop node after events) (on : s'.ctrlOn = s.ctrlOn)
    (samplers : s'.samplers = Function.update s.samplers tid (some { th with pc := after.pc }))
    (pending : s'.pendingAt = (s.setNode th.nid after.node).pendingAt) :
    Does (Service.Step xstatNbuf) s.view events s'.view := by
  have sampledHere : s.Sampled th.nid := ⟨tid, th, thread, rfl, alive⟩
  have sampled := inv.sampled_update thread alive samplers
  have lives : after.pc.Alive → ∀ nid, s'.Sampled nid ↔ s.Sampled nid := by
    intro living nid
    rw [sampled nid]
    by_cases own : nid = th.nid
    · subst own
      simp [living, sampledHere]
    · simp [own]
  cases move with
  | quiet node_eq ring_eq living =>
    refine does_nothing on (lives living) ?_
    rw [pending, node_eq, pendingAt_of_ring there ring_eq]
  | samples node_eq living =>
    refine does_one (.sample node.workingBuf sampledHere) on (lives living) ?_
    rw [pending, node_eq, pendingAt_setNode]
    refine congrArg (Function.update s.pendingAt th.nid) ?_
    show node.commit.pending = Service.enqueue xstatNbuf (s.pendingAt th.nid) node.workingBuf
    rw [pendingAt_of_node there]
    exact node.pending_commit indexed
  | leaves node_eq stopped finished =>
    have off : s.ctrlOn = false := by
      have named := inv.owned tid th thread alive
      obtain ⟨th', found, _, waiting, _⟩ := inv.named th.nid tid named
      rw [thread] at found
      cases found
      have lock := inv.lock
      rw [waiting.mp stopped] at lock
      exact lock.1
    refine does_one (.leaves off sampledHere) on (fun nid => ?_) ?_
    · show _ ↔ Function.update s.Sampled th.nid False nid
      rw [sampled nid, Function.update_apply]
      by_cases own : nid = th.nid
      · simp [own, finished]
      · simp [own]
    · rw [pending, node_eq, pendingAt_of_ring there rfl]
      rfl

/-- A step of a thread. -/
theorem does_sampler (inv : CtrlInv maxNumnodes s) (ok : ReadInv s) {tid : Nat} {input : Input}
    (taken : s.step maxNumnodes (.sampler tid input) = some s') :
    Does (Service.Step xstatNbuf) s.view (s.seen (.sampler tid input)) s'.view := by
  cases move_of_step taken with
  | @sampler _ _ th after thread move =>
    have alive := move.kept.alive
    obtain ⟨node, there, _⟩ := task_eq_some (inv.owned tid th thread alive)
    have indexed := (ok.nodes th.nid node there).indexed
    simp only [seen, thread]
    rw [there] at move ⊢
    exact inv.does_samplerMove thread alive there indexed
      (move.samplerMove fun i => inv.exiting tid th i thread) rfl rfl rfl

/-- A write to a node's reset attribute. -/
theorem does_storeResetAttr {nid count : Nat}
    (taken : s.step maxNumnodes (.storeResetAttr nid count) = some s') :
    Does (Service.Step xstatNbuf) s.view (s.seen (.storeResetAttr nid count)) s'.view := by
  cases move_of_step taken with
  | @reset _ _ node there =>
    have ring := node.ring_storeResetAttr count
    simp only [seen]
    split
    · rename_i written
      rw [if_pos written] at ring
      refine does_one .reset rfl (fun _ => Iff.rfl) ?_
      have none : (node.storeResetAttr count).pending = [] := by
        rw [XstatNode.pending, ring, RingBuffer.Buffer.contents_clear]
      rw [pendingAt_setNode, Option.map_some, Option.getD_some, none]
      rfl
    · rename_i nothing
      rw [if_neg nothing] at ring
      exact does_nothing rfl (fun _ => Iff.rfl) (pendingAt_of_ring there ring)

/-- A read of a node's stat attribute. -/
theorem does_showStatAttr (ok : ReadInv s) {nid : Nat}
    (taken : s.step maxNumnodes (.showStatAttr nid) = some s') :
    Does (Service.Step xstatNbuf) s.view (s.seen (.showStatAttr nid)) s'.view := by
  cases move_of_step taken with
  | @stat _ node there =>
    obtain ⟨read, reads, _, front, all⟩ := (ok.nodes nid node there).stat_split
    simp only [seen, there, Option.bind_some, reads, Option.toList_some, List.map_singleton]
    have split : s.view.pending nid = read.records ++ node.showStatAttr.1.pending :=
      (pendingAt_of_node there).trans front
    exact does_one (.read split all) rfl (fun _ => Iff.rfl) (pendingAt_setNode s nid _)

end Steps

/-! ### Runs -/

/-- **The module refines the service.** -/
theorem module_refines (maxNumnodes : Nat) :
    Refines (ModuleState.step maxNumnodes) (Service.Step xstatNbuf)
      (fun s => CtrlInv maxNumnodes s ∧ ReadInv s) view seen where
  keeps := fun inv taken => ⟨inv.1.step taken, inv.2.step inv.1 taken⟩
  matched := by
    intro s a s' ⟨inv, ok⟩ taken
    cases a with
    | storeCtrlAttr buf => exact does_write inv taken
    | startStat created => exact does_startStat inv taken
    | stopStat => exact does_stopStat taken
    | sampler tid input => exact does_sampler inv ok taken
    | storeResetAttr nid count => exact does_storeResetAttr taken
    | showStatAttr nid => exact does_showStatAttr ok taken
    | showLastAttr nid =>
      cases move_of_step taken with
      | last => exact .nil

theorem view_xstatInit (maxNumnodes : Nat) (nodeOnline : Nat → Bool) :
    (xstatInit maxNumnodes nodeOnline).view = Service.start := by
  refine view_eq rfl (fun nid => ?_) (funext fun nid => ?_)
  · exact iff_of_false (fun ⟨_, _, thread, _⟩ => by cases thread) id
  · unfold pendingAt xstatInit
    dsimp only
    split <;> rfl

/-- The history of the service that a run shows. -/
def history (trace : List (ModuleState × ModuleAction)) : List (ServiceEvent Nat Record) :=
  trace.flatMap fun x => x.1.seen x.2

theorem ThreadMove.samples_seen {nid tid nextCtx : Nat} {shouldStop : Bool} {node : Option XstatNode}
    {input : Input} {pc : SamplerPc} {after : ThreadStep}
    (move : ThreadMove nid tid shouldStop nextCtx input pc node after) (n : Nat) :
    ServiceEvent.samples n (pc.seen nid shouldStop node) = samplesOf n after.events := by
  have exits : ∀ i, ServiceEvent.samples n (SamplerPc.seen nid shouldStop node (.exitCounters i)) =
      [] := by
    intro i
    simp only [SamplerPc.seen]
    split <;> rfl
  cases move with
  | run going =>
    subst going
    rfl
  | cancel stopped =>
    subst stopped
    rfl
  | initPerf | init => exact (samplesOf_afterInit n nid tid _).symm
  | afterRoll | sleep | wake | again | restartPerf | restart => rfl
  | @commit node =>
    by_cases own : nid = n <;> simp [ServiceEvent.samples, SamplerPc.seen, samplesOf, own]
  | leave check => rcases check with rfl | rfl <;> rfl
  | exitPerf => exact (exits _).trans (samplesOf_afterExit n nid tid _).symm
  | exit => exact (exits _).trans (samplesOf_afterExit n nid tid _).symm

/-- The samples that a step shows are those it takes. -/
theorem samples_seen {maxNumnodes : Nat} {s s' : ModuleState} {a : ModuleAction}
    (taken : s.step maxNumnodes a = some s') (nid : Nat) :
    s'.samples nid = s.samples nid ++ ServiceEvent.samples nid (s.seen a) := by
  by_cases thread : ∃ tid input, a = .sampler tid input
  · obtain ⟨tid, input, rfl⟩ := thread
    cases move_of_step taken with
    | sampler thread move =>
      simp only [seen, thread, move.samples_seen nid]
      exact samplesOf_append nid _ _
  · have other : ∀ tid input, a ≠ .sampler tid input := fun tid input is => thread ⟨tid, input, is⟩
    have none : ServiceEvent.samples nid (s.seen a) = [] := by
      cases a with
      | sampler tid input => exact absurd rfl (other tid input)
      | stopStat | showLastAttr => rfl
      | showStatAttr n =>
        simp only [seen]
        cases (s.xstatNodes n).bind fun node => node.showStatAttr.2 <;> rfl
      | storeResetAttr n count =>
        simp only [seen]
        split <;> rfl
      | storeCtrlAttr buf =>
        simp only [seen]
        split
        · split <;> rfl
        · split <;> rfl
        · rfl
      | startStat created =>
        simp only [seen]
        split
        · split <;> rfl
        · rfl
    rw [none, List.append_nil]
    exact congrArg (samplesOf nid) (history_of_step taken other)

theorem samples_history {maxNumnodes : Nat} {start s : ModuleState}
    {trace : List (ModuleState × ModuleAction)} (run : Run (ModuleState.step maxNumnodes) start trace s)
    (nid : Nat) : s.samples nid = start.samples nid ++ ServiceEvent.samples nid (history trace) := by
  induction run with
  | nil => exact (List.append_nil _).symm
  | @snoc trace s _ a _ taken ih =>
    have longer : history (trace ++ [(s, a)]) = history trace ++ s.seen a := by
      simp [history]
    have later : ServiceEvent.samples nid (history trace ++ s.seen a) =
        ServiceEvent.samples nid (history trace) ++ ServiceEvent.samples nid (s.seen a) :=
      List.flatMap_append
    rw [samples_seen taken, ih, longer, later, List.append_assoc]

/-- **The module provides the service.** In every run, whatever is switched, reset or read, whichever
threads cannot be created and however their steps fall: what is seen of the run is a history that the
service allows, from before it is first switched on, and its samples are those taken. So what was read of a
node and what is pending there are samples of the node, each once and in order, and the samples pending are
never more than the ring has room for. -/
theorem module_provides_service {maxNumnodes : Nat} {nodeOnline : Nat → Bool}
    {trace : List (ModuleState × ModuleAction)} {s : ModuleState}
    (run : Run (ModuleState.step maxNumnodes) (xstatInit maxNumnodes nodeOnline) trace s) :
    Does (Service.Step xstatNbuf) Service.start (history trace) s.view ∧
      ∀ nid, ServiceEvent.samples nid (history trace) = s.samples nid ∧
        (ServiceEvent.delivered nid (history trace) ++ s.pendingAt nid).Sublist (s.samples nid) ∧
        (s.pendingAt nid).length ≤ xstatNbuf := by
  obtain ⟨_, does⟩ := (module_refines maxNumnodes).run
    ⟨ctrlInv_xstatInit maxNumnodes nodeOnline, readInv_xstatInit maxNumnodes nodeOnline⟩ run
  rw [view_xstatInit] at does
  refine ⟨does, fun nid => ?_⟩
  obtain ⟨sublist, few⟩ := Service.delivered_sublist (by decide) does nid
  have samples : ServiceEvent.samples nid (history trace) = s.samples nid := (samples_history run nid).symm
  exact ⟨samples, samples ▸ sublist, few⟩

/-- A node is sampled and read around a reset: the service delivered two of the three samples. -/
theorem module_provides_service_around_reset :
    ∃ trace s, Run (ModuleState.step 1) (xstatInit 1 fun _ => true) trace s ∧
      Does (Service.Step xstatNbuf) Service.start (history trace) s.view ∧
      (ServiceEvent.delivered 0 (history trace)).length = 2 ∧
      (ServiceEvent.samples 0 (history trace)).length = 3 := by
  have done : (exec (ModuleState.step 1) (xstatInit 1 fun _ => true) readAroundReset).any fun s =>
      (s.samples 0).length == 3 := by decide +kernel
  have read : (ServiceEvent.delivered 0 (history (visits (ModuleState.step 1)
      (xstatInit 1 fun _ => true) readAroundReset))).length = 2 := by decide +kernel
  obtain ⟨s, reached, three⟩ := (Option.any_eq_true _ _).mp done
  have run := run_visits reached
  obtain ⟨does, queues⟩ := module_provides_service run
  refine ⟨_, s, run, does, read, ?_⟩
  rw [(queues 0).1]
  exact beq_iff_eq.mp three

end Xstats.Xstat
