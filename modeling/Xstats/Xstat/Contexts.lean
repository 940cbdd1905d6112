/-
**Reads and the contexts they follow.**

The IPMI formatter follows its counter's entry of `ctxs`, which `init_counters` sets. A stat read
prints only pending samples, and a sample is pending only if a sampler got through `init_counters`.
A read of the last attribute prints whatever the slot before `buffer_next` holds, also when nothing
was ever sampled.

* `ReadInv.step`: the entries are set from the moment the first sampler of the node returns from
  `init_counters`, and the last of them is null until then.
* `reads_follow_set_contexts_iff`: a run's reads follow set entries only, if and only if each read of
  a node's last attribute comes after that moment.
-/

import Xstats.Xstat.Lifecycle
import Xstats.Xstat.StatText

namespace Xstats.Xstat

open RingBuffer Transition ModuleState

/-- Some sampler of the node has returned from `init_counters`. -/
def ModuleState.InitReturned (s : ModuleState) (nid : Nat) : Prop :=
  ∃ tid, Event.initReturned nid tid ∈ s.history

/-- A read made in the state `x.1` follows set entries only: it prints, and does not fault. -/
def ReadSafe (x : ModuleState × ModuleAction) : Prop :=
  ∀ nid node, x.1.xstatNodes nid = some node →
    (x.2 = .showStatAttr nid → node.showStatAttr.2 ≠ none) ∧
    (x.2 = .showLastAttr nid → node.showLastAttr ≠ none)

/-! ### What a read needs -/

/-- Printing faults if the last counter's entry is null. -/
theorem XstatNode.printBuffer_of_null {node : XstatNode} (null : node.ctxs 15 = .null) (limit : Int)
    (buf : Record) : printBuffer limit node buf = none := by
  have indices : List.finRange xstatNcnt = (List.finRange 15).map Fin.castSucc ++ [15] := by decide
  have last : ∀ cursor, node.printCounter buf cursor 15 = none := by
    intro cursor
    have formatter : (nodeCounters 15).scnprintf = some .xstatIpmiScnprintf := rfl
    simp only [printCounter, printField, formatter, null]
    rfl
  rw [printBuffer, indices, List.foldlM_append]
  simp only [List.foldlM_cons, last, Option.bind_eq_bind, Option.bind_none, Option.bind_fun_none]

theorem XstatNode.showStatAttr_of_empty {node : XstatNode} (empty : node.bufferSize = 0) :
    node.showStatAttr = (node, some ⟨[], []⟩) := by
  rw [showStatAttr, empty]
  rfl

/-! ### The invariant -/

/-- A thread at `pc` has returned from `init_counters`. -/
def SamplerPc.PastInit : SamplerPc → Prop
  | .created | .initCounters _ | .cancelled => False
  | _ => True

/-- The IPMI entries before entry `i` are set. -/
def XstatNode.SetBelow (node : XstatNode) (i : Fin xstatNcnt) : Prop :=
  ∀ j group, j < i → (nodeCounters j).data = .ipmi group → node.ctxs j = .ipmi group

/-- A node's ring and entries, where `returned` says whether a sampler of it has returned from
`init_counters`. -/
structure XstatNode.ReadOk (returned : Prop) (node : XstatNode) : Prop where
  indexed : node.ring.WellIndexed xstatNbuf
  pending : 0 < node.bufferSize → returned
  ready : returned → node.IpmiReady
  null : ¬ returned → node.ctxs 15 = .null

/-- Rings and entries against the progress of the samplers. -/
structure ReadInv (s : ModuleState) : Prop where
  nodes : ∀ nid node, s.xstatNodes nid = some node → node.ReadOk (s.InitReturned nid)
  past : ∀ tid th, s.samplers tid = some th → th.pc.PastInit → s.InitReturned th.nid
  partway : ∀ tid th node i, s.samplers tid = some th → th.pc = .initCounters i →
    s.xstatNodes th.nid = some node → node.SetBelow i

theorem readOk_register (nid : Nat) {returned : Prop} (never : ¬ returned) :
    (registerXstatNode nid).ReadOk returned where
  indexed := ⟨Nat.zero_lt_succ _, Nat.zero_lt_succ _, Nat.zero_le _, rfl⟩
  pending := fun positive => absurd positive (Nat.lt_irrefl 0)
  ready := fun done => absurd done never
  null := fun _ => rfl

theorem readInv_xstatInit (maxNumnodes : Nat) (nodeOnline : Nat → Bool) :
    ReadInv (xstatInit maxNumnodes nodeOnline) where
  nodes := fun nid node there => by
    obtain ⟨_, step⟩ := Option.ite_none_right_eq_some.mp there
    cases step
    exact readOk_register nid fun ⟨_, member⟩ => by cases member
  past := fun _ _ thread => by cases thread
  partway := fun _ _ _ _ thread => by cases thread

/-! ### A thread's step -/

/-- A counter with a group is initialised by setting its entry to the group. -/
theorem initSlot_ipmi {i : Fin xstatNcnt} {group : Fin 3} (data : (nodeCounters i).data = .ipmi group)
    (allocated : Nat) (before : Slot) : XstatNode.initSlot i allocated before = .ipmi group := by
  have own : ∀ i group, (nodeCounters i).data = .ipmi group →
      (nodeCounters i).init = some .xstatIpmiCntInit := by decide
  simp only [XstatNode.initSlot, own i group data, data]

/-- What a thread's step leaves of its node, `done` saying whether it returned from
`init_counters`. -/
structure ReadOkAfter (done : Prop) (after : ThreadStep) (node : XstatNode) : Prop where
  node_eq : after.node = some node
  ok : node.ReadOk done
  past : after.pc.PastInit → done
  partway : ∀ i, after.pc = .initCounters i → node.SetBelow i

/-- An iteration of `init_counters`. -/
theorem readOkAfter_init {node : XstatNode} {returned : Prop} {nid tid allocated nextCtx : Nat}
    {k : Fin xstatNcnt} {events : List Event} (ok : node.ReadOk returned)
    (below : node.SetBelow k) (events_eq : (∃ t, Event.initReturned nid t ∈ events) ↔
      ∃ t, Event.initReturned nid t ∈ (afterInit nid tid k).2) :
    ReadOkAfter (returned ∨ ∃ t, Event.initReturned nid t ∈ events)
      ⟨(afterInit nid tid k).1, some (node.initCounter allocated k), nextCtx, events⟩
      (node.initCounter allocated k) := by
  have through : ∀ j group, j ≤ k → (nodeCounters j).data = .ipmi group →
      (node.initCounter allocated k).ctxs j = .ipmi group := by
    intro j group upTo data
    rw [XstatNode.ctxs_initCounter]
    by_cases here : j = k
    · subst here
      rw [Function.update_self, initSlot_ipmi data]
    · rw [Function.update_of_ne here]
      exact below j group (lt_of_le_of_ne upTo here) data
  have ring : (node.initCounter allocated k).ring = node.ring := XstatNode.ring_initCounter ..
  have size : (node.initCounter allocated k).bufferSize = node.bufferSize :=
    congrArg Buffer.size ring
  have kept : node.IpmiReady → (node.initCounter allocated k).IpmiReady := by
    intro ready j group data
    rw [XstatNode.ctxs_initCounter]
    by_cases here : j = k
    · subst here
      rw [Function.update_self, initSlot_ipmi data]
    · rw [Function.update_of_ne here]
      exact ready j group data
  rw [events_eq]
  by_cases inside : k.val + 1 < xstatNcnt
  · have next : afterInit nid tid k = (.initCounters ⟨k.val + 1, inside⟩, []) := by
      simp only [afterInit, nextCounter, dif_pos inside]
    have notYet : (returned ∨ ∃ t, Event.initReturned nid t ∈ (afterInit nid tid k).2) ↔ returned := by
      simp [next]
    rw [notYet]
    refine ⟨rfl, ⟨ring ▸ ok.indexed, size ▸ ok.pending, fun done => kept (ok.ready done), ?_⟩, ?_, ?_⟩
    · intro never
      have apart : (15 : Fin xstatNcnt) ≠ k := by
        rintro rfl
        exact absurd inside (by decide)
      rw [XstatNode.ctxs_initCounter, Function.update_of_ne apart]
      exact ok.null never
    · intro past
      rw [next] at past
      exact past.elim
    · intro i place j group before data
      rw [next] at place
      cases place
      exact through j group (Nat.lt_succ_iff.mp before) data
  · have last : afterInit nid tid k = (.restart 0, [.initReturned nid tid]) := by
      simp only [afterInit, nextCounter, dif_neg inside]
    have done : returned ∨ ∃ t, Event.initReturned nid t ∈ (afterInit nid tid k).2 := by
      refine .inr ⟨tid, ?_⟩
      rw [last]
      exact List.mem_singleton_self _
    refine ⟨rfl, ⟨ring ▸ ok.indexed, fun _ => done, fun _ j group data => ?_,
      fun never => absurd done never⟩, fun _ => done, ?_⟩
    · exact through j group (by rw [Fin.le_def]; omega) data
    · intro i place
      rw [last] at place
      cases place

/-- A step after `init_counters` that keeps the IPMI entries. -/
theorem readOkAfter_past {node node' : XstatNode} {returned : Prop} {after : ThreadStep}
    {nid : Nat} (ok : node.ReadOk returned) (done : returned) (node_eq : after.node = some node')
    (indexed : node'.ring.WellIndexed xstatNbuf)
    (kept : ∀ j, (nodeCounters j).init.isSome → node'.ctxs j = node.ctxs j)
    (place : ∀ i, after.pc ≠ .initCounters i) :
    ReadOkAfter (returned ∨ ∃ t, Event.initReturned nid t ∈ after.events) after node' where
  node_eq := node_eq
  ok := {
    indexed := indexed
    pending := fun _ => .inl done
    ready := fun _ j group data => by
      have set : ∀ i group, (nodeCounters i).data = .ipmi group → (nodeCounters i).init.isSome := by
        decide
      rw [kept j (set j group data)]
      exact ok.ready done j group data
    null := fun never => absurd (.inl done) never }
  past := fun _ => .inl done
  partway := fun i is => absurd is (place i)

theorem ThreadMove.readOk {nid tid nextCtx : Nat} {shouldStop : Bool} {node : XstatNode}
    {input : Input} {pc : SamplerPc} {after : ThreadStep} {returned : Prop}
    (move : ThreadMove nid tid shouldStop nextCtx input pc (some node) after)
    (ok : node.ReadOk returned) (past : pc.PastInit → returned)
    (partway : ∀ i, pc = .initCounters i → node.SetBelow i) :
    ∃ node', ReadOkAfter (returned ∨ ∃ t, Event.initReturned nid t ∈ after.events) after node' := by
  have quiet : ∀ event, ¬ (∃ t, event = Event.initReturned nid t) →
      ((returned ∨ ∃ t, Event.initReturned nid t ∈ [event]) ↔ returned) := by
    intro event other
    refine or_iff_left ?_
    rintro ⟨t, member⟩
    exact other ⟨t, (List.mem_singleton.mp member).symm⟩
  cases move with
  | run =>
    refine ⟨node, rfl, ?_, fun past => past.elim, fun i place => ?_⟩
    · rw [quiet _ (by simp)]
      exact ok
    · cases place
      exact fun j _ before => absurd before (Fin.not_lt_zero j)
  | cancel => exact ⟨node, rfl, by simpa using ok, fun past => past.elim, fun i place => by cases place⟩
  | @initPerf _ k _ =>
    refine ⟨_, readOkAfter_init ok (partway k rfl) ?_⟩
    simp
  | @init _ k _ => exact ⟨_, readOkAfter_init ok (partway k rfl) Iff.rfl⟩
  | afterRoll | sleep | wake | again =>
    exact ⟨node, readOkAfter_past ok (past trivial) rfl ok.indexed (fun _ _ => rfl) (by simp)⟩
  | @restartPerf _ node' i _ _ _ done | @restart _ node' i _ done =>
    have spec := XstatNode.restartCounter_spec done
    refine ⟨node', readOkAfter_past ok (past trivial) rfl (spec.ring_eq ▸ ok.indexed) spec.ctxs_eq ?_⟩
    intro k
    show afterRestart i ≠ _
    unfold afterRestart
    split <;> simp
  | commit =>
    refine ⟨node.commit, readOkAfter_past ok (past trivial) rfl ?_ (fun j _ => ?_) (by simp)⟩
    · rw [XstatNode.ring_commit]
      exact ok.indexed.push _
    · rw [XstatNode.ctxs_commit]
  | leave check =>
    have passed : returned := past (by rcases check with rfl | rfl <;> trivial)
    exact ⟨node, readOkAfter_past ok passed rfl ok.indexed (fun _ _ => rfl) (by simp)⟩
  | @exitPerf _ i | @exit _ i =>
    refine ⟨node, readOkAfter_past ok (past trivial) rfl ok.indexed (fun _ _ => rfl) ?_⟩
    intro k
    show (afterExit nid tid i).1 ≠ _
    unfold afterExit
    split <;> simp

/-- The thread of one node says nothing about another. -/
theorem ThreadMove.returned_own {nid tid nextCtx : Nat} {shouldStop : Bool}
    {node : Option XstatNode} {input : Input} {pc : SamplerPc} {after : ThreadStep}
    (move : ThreadMove nid tid shouldStop nextCtx input pc node after) {n t : Nat}
    (member : Event.initReturned n t ∈ after.events) : n = nid := by
  by_contra other
  have silent : ∀ i, Event.initReturned n t ∉ (afterInit nid tid i).2 := by
    intro i
    unfold afterInit
    split <;> simp [other]
  have silentExit : ∀ i, Event.initReturned n t ∉ (afterExit nid tid i).2 := by
    intro i
    unfold afterExit
    split <;> simp
  cases move <;> simp_all

/-! ### The steps of the module -/

section Steps

variable {maxNumnodes : Nat} {s s' : ModuleState}

/-- A stat read either finds the ring empty or finds the contexts set. -/
theorem XstatNode.ReadOk.showStatAttr {node : XstatNode} {returned : Prop}
    (ok : node.ReadOk returned) :
    node.showStatAttr.1.ReadOk returned ∧ node.showStatAttr.2 ≠ none := by
  by_cases empty : node.bufferSize = 0
  · rw [showStatAttr_of_empty empty]
    exact ⟨ok, by simp⟩
  · have done := ok.pending (Nat.pos_of_ne_zero empty)
    obtain ⟨count, within, result, _⟩ := showStatAttr_spec (ok.ready done) ok.indexed
    rw [result]
    refine ⟨⟨ok.indexed.drop within, fun _ => done, ok.ready, ok.null⟩, by simp⟩

/-- What no thread does to a node leaves it as good for reading as it was. -/
theorem ModuleState.NodeMove.readOk {node node' : XstatNode} (move : NodeMove node node')
    {returned : Prop} (ok : node.ReadOk returned) : node'.ReadOk returned := by
  cases move with
  | task => exact ⟨ok.indexed, ok.pending, ok.ready, ok.null⟩
  | reset count =>
    unfold XstatNode.storeResetAttr
    split
    · exact ⟨ok.indexed.clear, fun positive => absurd positive (Nat.lt_irrefl 0), ok.ready, ok.null⟩
    · exact ok
  | stat => exact ok.showStatAttr.1

/-- A read of the last attribute faults exactly before the first return from `init_counters`. -/
theorem XstatNode.ReadOk.showLastAttr_iff {node : XstatNode} {returned : Prop}
    (ok : node.ReadOk returned) : node.showLastAttr ≠ none ↔ returned := by
  constructor
  · intro prints
    by_contra never
    exact prints (printBuffer_of_null (ok.null never) _ _)
  · intro done
    rw [XstatNode.showLastAttr, printBuffer_eq (ok.ready done) (by decide)]
    simp

/-- The step of a thread. -/
theorem ReadInv.sampler (read : ReadInv s) (inv : CtrlInv maxNumnodes s) {tid : Nat} {input : Input}
    {th : Sampler} {after : ThreadStep} (thread : s.samplers tid = some th)
    (move : ThreadMove th.nid tid th.shouldStop s.nextCtx input th.pc
      (s.xstatNodes th.nid) after) :
    ReadInv { (s.setNode th.nid after.node).setSampler tid { th with pc := after.pc } with
      nextCtx := after.nextCtx, history := s.history ++ after.events } := by
  set s' : ModuleState := { (s.setNode th.nid after.node).setSampler tid { th with pc := after.pc } with
    nextCtx := after.nextCtx, history := s.history ++ after.events }
  obtain ⟨node, there, _⟩ := task_eq_some (inv.owned tid th thread move.kept.alive)
  have own : ∀ n, s'.InitReturned n ↔
      s.InitReturned n ∨ ∃ t, Event.initReturned n t ∈ after.events := by
    intro n
    simp only [InitReturned, s', List.mem_append, exists_or]
  have returned : ∀ n, n ≠ th.nid → (s'.InitReturned n ↔ s.InitReturned n) := by
    intro n other
    rw [own]
    exact or_iff_left fun ⟨_, member⟩ => other (move.returned_own member)
  rw [there] at move
  obtain ⟨node', node_eq, ok, past, partway⟩ := move.readOk (read.nodes _ _ there)
    (read.past tid th thread) fun i place => read.partway tid th node i thread place there
  rw [← own] at ok past
  have nodeAt : ∀ n, s'.xstatNodes n = if n = th.nid then some node' else s.xstatNodes n := by
    intro n
    rw [← node_eq]
    exact xstatNodes_setNode s th.nid after.node n
  have threadAt : ∀ t th', s'.samplers t = some th' →
      (t = tid ∧ th' = { th with pc := after.pc }) ∨ (t ≠ tid ∧ s.samplers t = some th') := by
    intro t th' found
    change Function.update s.samplers tid _ t = some th' at found
    rcases update_eq_iff.mp found with ⟨same, new⟩ | old
    · cases new
      exact .inl ⟨same, rfl⟩
    · exact .inr old
  constructor
  case nodes =>
    intro n found foundAt
    rw [nodeAt] at foundAt
    by_cases here : n = th.nid
    · rw [if_pos here] at foundAt
      cases foundAt
      exact here ▸ ok
    · rw [if_neg here] at foundAt
      rw [returned n here]
      exact read.nodes n found foundAt
  case past =>
    intro t th' found isPast
    rcases threadAt t th' found with ⟨rfl, rfl⟩ | ⟨_, old⟩
    · exact past isPast
    · rw [own]
      exact .inl (read.past t th' old isPast)
  case partway =>
    intro t th' found i foundThread place foundNode
    rw [nodeAt] at foundNode
    rcases threadAt t th' foundThread with ⟨rfl, rfl⟩ | ⟨other, old⟩
    · rw [if_pos rfl] at foundNode
      cases foundNode
      exact partway i place
    · have alive : th'.pc.Alive := by
        rw [place]
        simp [SamplerPc.Alive]
      have elsewhere : th'.nid ≠ th.nid := fun same =>
        other (inv.alive_unique old thread alive move.kept.alive same)
      rw [if_neg elsewhere] at foundNode
      exact read.partway t th' found i old place foundNode

theorem ReadInv.step (read : ReadInv s) (inv : CtrlInv maxNumnodes s) {a : ModuleAction}
    (taken : s.step maxNumnodes a = some s') : ReadInv s' := by
  by_cases thread : ∃ tid input, a = .sampler tid input
  · obtain ⟨tid, input, rfl⟩ := thread
    cases move_of_step taken with
    | sampler thread move => exact read.sampler inv thread move
  · have other : ∀ tid input, a ≠ .sampler tid input := fun tid input is => thread ⟨tid, input, is⟩
    have returned : ∀ nid, s'.InitReturned nid = s.InitReturned nid := by
      intro nid
      unfold InitReturned
      rw [history_of_step taken other]
    constructor
    case nodes =>
      intro nid node' there
      obtain ⟨node, before, move⟩ := nodeMove_of_step taken other there
      rw [returned]
      exact move.readOk (read.nodes nid node before)
    case past =>
      intro tid th found past
      rw [returned]
      rcases place_of_step taken other found with ⟨th', before, nid, pc⟩ | created
      · rw [nid]
        exact read.past tid th' before (pc ▸ past)
      · rw [created] at past
        exact past.elim
    case partway =>
      intro tid th node' i found place there
      obtain ⟨node, before, move⟩ := nodeMove_of_step taken other there
      rcases place_of_step taken other found with ⟨th', old, nid, pc⟩ | created
      · intro j group below data
        rw [move.sameContexts.1]
        exact read.partway tid th' node i old (pc ▸ place) (nid ▸ before) j group below data
      · rw [created] at place
        cases place

end Steps

/-! ### Runs -/

/-- **When reads follow set contexts only.** Over any run of the module, no read of a stat or last
attribute follows a null entry if and only if every read of a node's last attribute is made after
some sampler of that node has returned from `init_counters`. Reads of stat need nothing. -/
theorem reads_follow_set_contexts_iff {maxNumnodes : Nat} {nodeOnline : Nat → Bool}
    {trace : List (ModuleState × ModuleAction)} {s : ModuleState}
    (run : Run (ModuleState.step maxNumnodes) (xstatInit maxNumnodes nodeOnline) trace s) :
    (∀ x ∈ trace, ReadSafe x) ↔
      ∀ x ∈ trace, ∀ nid, x.2 = .showLastAttr nid → x.1.InitReturned nid := by
  have visited := run.visited (P := fun s => CtrlInv maxNumnodes s ∧ ReadInv s) (fun _ _ => True)
    ⟨ctrlInv_xstatInit maxNumnodes nodeOnline, readInv_xstatInit maxNumnodes nodeOnline⟩
    (fun _ _ _ before _ taken => ⟨before.1.step taken, before.2.step before.1 taken⟩)
    fun _ _ => trivial
  constructor
  · intro safe x member nid reads
    obtain ⟨s', taken⟩ := run.taken x member
    rw [reads] at taken
    obtain ⟨node, there, _⟩ := Option.map_eq_some_iff.mp taken
    have ok := (visited x member).2.nodes nid node there
    exact ok.showLastAttr_iff.mp ((safe x member nid node there).2 reads)
  · intro after x member nid node there
    have ok := (visited x member).2.nodes nid node there
    exact ⟨fun _ => ok.showStatAttr.2, fun reads =>
      ok.showLastAttr_iff.mpr (after x member nid reads)⟩

/-- A read of the last attribute when the first sampler has just returned from `init_counters`. -/
theorem reads_follow_set_contexts_switched_on :
    ∃ trace s, Run (ModuleState.step 1) (xstatInit 1 fun _ => true) trace s ∧
      trace.map Prod.snd = switchedOn 17 ++ [.showLastAttr 0] ∧ ∀ x ∈ trace, ReadSafe x := by
  have done : (exec (ModuleState.step 1) (xstatInit 1 fun _ => true) (switchedOn 17)).any fun s =>
      (s.xstatNodes 0).isSome && s.history.any fun
        | .initReturned nid tid => nid == 0 && tid == 0
        | _ => false := by decide +kernel
  obtain ⟨trace, s, run, same, passed⟩ := run_of_exec_any done
  obtain ⟨some, returned⟩ := Bool.and_eq_true _ _ |>.mp passed
  obtain ⟨node, there⟩ := Option.isSome_iff_exists.mp some
  have initReturned : s.InitReturned 0 := by
    obtain ⟨event, member, is⟩ := List.any_eq_true.mp returned
    cases event with
    | initReturned nid tid =>
      simp only [Bool.and_eq_true, beq_iff_eq] at is
      exact ⟨tid, is.1 ▸ member⟩
    | _ => cases is
  have read : s.step 1 (.showLastAttr 0) = Option.some s := by
    simp only [ModuleState.step, there, Option.map_some]
  have whole := run.snoc read
  refine ⟨_, s, whole, by simp [same], (reads_follow_set_contexts_iff whole).mpr ?_⟩
  intro x member nid reads
  rcases List.mem_append.mp member with earlier | last
  · have among : x.2 ∈ switchedOn 17 := same ▸ List.mem_map_of_mem earlier
    rw [reads] at among
    simp [switchedOn] at among
  · rw [List.mem_singleton] at last
    subst last
    cases reads
    exact initReturned

/-- The last attribute of a node just registered faults when it is read. -/
theorem read_last_follows_null :
    ¬ ∀ (maxNumnodes : Nat) (nodeOnline : Nat → Bool) trace s,
      Run (ModuleState.step maxNumnodes) (xstatInit maxNumnodes nodeOnline) trace s →
        ∀ x ∈ trace, ReadSafe x := by
  intro always
  have run : Run (ModuleState.step 1) (xstatInit 1 fun _ => true)
      ([] ++ [(xstatInit 1 fun _ => true, .showLastAttr 0)]) (xstatInit 1 fun _ => true) :=
    Run.nil.snoc rfl
  have safe := always 1 (fun _ => true) _ _ run (xstatInit 1 fun _ => true, .showLastAttr 0) (by simp)
  have faults : (registerXstatNode 0).showLastAttr = none :=
    XstatNode.printBuffer_of_null rfl _ _
  exact (safe 0 (registerXstatNode 0) rfl).2 rfl faults

end Xstats.Xstat
