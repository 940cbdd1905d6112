/-
**Timestamps and intervals.**

`intv_restart` subtracts what `ts_restart` left in two entries of `ctxs`: the timestamp it read, and
the previous one, which it had from the working buffer. Nothing of that is touched when a sampler
ends and the next one starts, so the samples of a node form one chain across all of them. That the
timestamps go up, and no interval wraps, needs a clock: `get_time` must not return less to a
`ts_restart` than it returned to the one before.

* `restartCounter_clockOk`, `ClockInv.step`: the chain, whatever `get_time` returns.
* `ForwardInv.step`: the order, while what it returns does not go back.
* `chain_of_inv`: with both, the samples of a node follow each other, and so do the pending ones and
  those of a stat read.
-/

import Xstats.Xstat.Contexts

namespace Xstats.Xstat

open RingBuffer Transition ModuleState

/-- The samples of one node. -/
def samplesOf (nid : Nat) (events : List Event) : List Record :=
  events.filterMap fun
    | .sample n record => if n = nid then some record else none
    | _ => none

@[simp] theorem samplesOf_append (nid : Nat) (first second : List Event) :
    samplesOf nid (first ++ second) = samplesOf nid first ++ samplesOf nid second :=
  List.filterMap_append

/-- The samples taken of a node since its registration, in order. -/
def ModuleState.samples (s : ModuleState) (nid : Nat) : List Record := samplesOf nid s.history

/-- The interval of `next` reaches back to `record`, modulo `2 ^ 64`. -/
def ReachesBack (record next : Record) : Prop := next.ts = record.ts + next.intv

/-- `next` is the sample after `record`: its interval is the time that passed, without a wrap. -/
structure Follows (record next : Record) : Prop where
  ts_le : record.ts ≤ next.ts
  ts_eq : next.ts = record.ts + next.intv
  intv_eq : next.intv.toNat = next.ts.toNat - record.ts.toNat

theorem ReachesBack.follows {record next : Record} (reaches : ReachesBack record next)
    (later : record.ts ≤ next.ts) : Follows record next := by
  refine ⟨later, reaches, ?_⟩
  have intv : next.intv = next.ts - record.ts := by
    rw [reaches, BitVec.add_comm, BitVec.add_sub_cancel]
  rw [intv]
  exact BitVec.toNat_sub_of_le later

/-- The timestamp of the newest of the records, zero if there is none. -/
def lastTs (records : List Record) : Word := ((records.getLast?).map Record.ts).getD 0

/-! ### Within one pass of `roll_buffer` -/

/-- How many iterations of `roll_buffer` a thread at `pc` has done in the current pass. -/
def SamplerPc.stage : SamplerPc → Nat
  | .restart i => i.val
  | .commit => xstatNcnt
  | _ => 0

theorem stage_afterRestart (i : Fin xstatNcnt) : (afterRestart i).stage = i.val + 1 := by
  unfold afterRestart nextCounter
  split
  · have next : _ = _ := ‹_›
    split at next
    · cases next
      rfl
    · cases next
  · have last : _ = _ := ‹_›
    split at last
    · cases last
    · simp only [SamplerPc.stage]
      omega

/-- The two clock entries and words of a node after `stage` iterations, where `last` is the timestamp
of its newest sample. -/
def ClockOk (last : Word) (node : XstatNode) : Nat → Prop
  | 0 => node.workingBuf 0 = last
  | 1 => node.ctxs 0 = .word last ∧ node.ctxs 1 = .word (node.workingBuf 0)
  | _ => node.workingBuf 1 = node.workingBuf 0 - last

theorem ClockOk.congr {last : Word} {node node' : XstatNode} {stage : Nat}
    (ok : ClockOk last node stage) (ctxs : node'.ctxs = node.ctxs)
    (workingBuf : node'.workingBuf = node.workingBuf) : ClockOk last node' stage := by
  match stage, ok with
  | 0, ok | 1, ok | _ + 2, ok =>
    simp only [ClockOk, ctxs, workingBuf]
    exact ok

/-- One iteration of `roll_buffer`. -/
theorem restartCounter_clockOk {last : Word} {node node' : XstatNode} {i : Fin xstatNcnt}
    {input : Input} (ok : ClockOk last node i.val)
    (done : node.restartCounter i input = some node') : ClockOk last node' (i.val + 1) := by
  by_cases first : i = 0
  · subst first
    have same : node.workingBuf 0 = last := ok
    have restart : (nodeCounters 0).restart = .tsRestart := rfl
    simp only [XstatNode.restartCounter, restart, callRestart, tsRestart, Option.bind_eq_bind,
      Option.bind_some, Option.pure_def, Option.some.injEq] at done
    subst done
    refine ⟨?_, ?_⟩
    · simp [same, Function.update]
    · simp
  · by_cases second : i = 1
    · subst second
      obtain ⟨old, new⟩ := ok
      have restart : (nodeCounters 1).restart = .intvRestart := rfl
      simp only [XstatNode.restartCounter, restart, callRestart, intvRestart, Option.bind_eq_bind,
        Option.bind_some, Option.pure_def, Option.some.injEq] at done
      subst done
      show (_ : Word) = _
      simp [old, new, Slot.value]
    · have spec := XstatNode.restartCounter_spec done
      have beyond : 2 ≤ i.val := by
        have notZero : i.val ≠ 0 := fun same => first (Fin.ext same)
        have notOne : i.val ≠ 1 := fun same => second (Fin.ext same)
        omega
      obtain ⟨k, here⟩ := Nat.exists_eq_add_of_le' beyond
      rw [here] at ok ⊢
      have intv : node.workingBuf 1 = node.workingBuf 0 - last := ok
      show node'.workingBuf 1 = node'.workingBuf 0 - last
      rw [spec.workingBuf_eq 0 (Ne.symm first), spec.workingBuf_eq 1 (Ne.symm second), intv]

/-- The sample that a full pass leaves in the working buffer. -/
theorem ClockOk.reachesBack {record : Record} {node : XstatNode}
    (ok : ClockOk record.ts node xstatNcnt) : ReachesBack record node.workingBuf := by
  have interval : Record.intv node.workingBuf = Record.ts node.workingBuf - record.ts := ok
  rw [ReachesBack, interval, BitVec.add_comm, BitVec.sub_add_cancel]

/-! ### The step of a thread -/

theorem samplesOf_afterInit (n nid tid : Nat) (i : Fin xstatNcnt) :
    samplesOf n (afterInit nid tid i).2 = [] := by
  unfold afterInit
  split <;> rfl

theorem samplesOf_afterExit (n nid tid : Nat) (i : Fin xstatNcnt) :
    samplesOf n (afterExit nid tid i).2 = [] := by
  unfold afterExit
  split <;> rfl

theorem stage_afterInit (nid tid : Nat) (i : Fin xstatNcnt) : (afterInit nid tid i).1.stage = 0 := by
  unfold afterInit
  split
  · rfl
  · rfl

theorem stage_afterExit (nid tid : Nat) (i : Fin xstatNcnt) : (afterExit nid tid i).1.stage = 0 := by
  unfold afterExit
  split <;> rfl

/-- A node's samples, its ring and its clock words. -/
structure Chained (records : List Record) (stage : Nat) (node : XstatNode) : Prop where
  chain : records.IsChain ReachesBack
  words : ClockOk (lastTs records) node stage
  pending : node.pending <:+ records

/-- Nothing was sampled. -/
theorem Chained.quiet {records : List Record} {stage : Nat} {node node' : XstatNode}
    (ok : Chained records stage node) (ring : node'.ring = node.ring)
    (ctxs : stage = 1 → node'.ctxs 0 = node.ctxs 0 ∧ node'.ctxs 1 = node.ctxs 1)
    (workingBuf : node'.workingBuf = node.workingBuf) : Chained records stage node' := by
  refine ⟨ok.chain, ?_, ?_⟩
  · have words := ok.words
    match stage, words with
    | 0, words | _ + 2, words =>
      simp only [ClockOk, workingBuf]
      exact words
    | 1, words =>
      simp only [ClockOk, workingBuf, (ctxs rfl).1, (ctxs rfl).2]
      exact words
  · rw [XstatNode.pending, ring]
    exact ok.pending

theorem lastTs_concat (records : List Record) (record : Record) :
    lastTs (records ++ [record]) = record.ts := by
  simp [lastTs]

/-- A new sample stands in a relation to the one before, whose timestamp is the last one. -/
theorem isChain_concat {R : Record → Record → Prop} {records : List Record} {new : Record}
    (chain : records.IsChain R) (last : ∀ record, lastTs records = record.ts → R record new) :
    (records ++ [new]).IsChain R := by
  refine List.isChain_append.mpr ⟨chain, List.isChain_singleton _, ?_⟩
  intro record newest next first
  simp only [List.head?_cons, Option.mem_def, Option.some.injEq] at first
  have ts : lastTs records = record.ts := by
    unfold lastTs
    rw [newest]
    rfl
  exact first ▸ last record ts

theorem Chained.commit {records : List Record} {node : XstatNode}
    (ok : Chained records xstatNcnt node) (indexed : node.ring.WellIndexed xstatNbuf) :
    Chained (records ++ [node.workingBuf]) 0 node.commit := by
  refine ⟨isChain_concat ok.chain fun record ts => ?_, ?_, ?_⟩
  · have words := ok.words
    rw [ts] at words
    exact words.reachesBack
  · rw [lastTs_concat]
    show node.commit.workingBuf 0 = _
    rw [XstatNode.workingBuf_commit]
    rfl
  · have pushed : node.commit.pending =
        (({ settled := [], pending := node.pending } : Ledger Record).push xstatNbuf
          node.workingBuf).pending := by
      rw [XstatNode.pending, XstatNode.ring_commit]
      exact Buffer.contents_push indexed _ rfl _
    rw [pushed, Ledger.pending_push]
    have older : (if node.pending.length < xstatNbuf then node.pending else node.pending.drop 1) <:+
        records := by
      split
      · exact ok.pending
      · exact (List.drop_suffix 1 _).trans ok.pending
    obtain ⟨front, rfl⟩ := older
    exact ⟨front, (List.append_assoc ..).symm⟩

theorem workingBuf_initCounter (node : XstatNode) (allocated : Nat) (i : Fin xstatNcnt) :
    (node.initCounter allocated i).workingBuf = node.workingBuf := by
  unfold XstatNode.initCounter
  split <;> rfl

theorem ThreadMove.chained {nid tid nextCtx : Nat} {shouldStop : Bool} {node : XstatNode}
    {input : Input} {pc : SamplerPc} {after : ThreadStep} {records : List Record}
    (move : ThreadMove nid tid shouldStop nextCtx input pc (some node) after)
    (indexed : node.ring.WellIndexed xstatNbuf) (ok : Chained records pc.stage node) :
    ∃ node', after.node = some node' ∧
      Chained (records ++ samplesOf nid after.events) after.pc.stage node' := by
  have silent : ∀ events, samplesOf nid events = [] →
      records ++ samplesOf nid events = records := by
    intro events empty
    rw [empty, List.append_nil]
  cases move with
  | run => exact ⟨node, rfl, by rw [silent _ rfl]; exact ok⟩
  | cancel | afterRoll | sleep | wake | again =>
    exact ⟨node, rfl, by rw [silent _ rfl]; exact ok⟩
  | @initPerf _ i | @init _ i =>
    refine ⟨_, rfl, ?_⟩
    show Chained (records ++ samplesOf nid (afterInit nid tid i).2) (afterInit nid tid i).1.stage _
    rw [silent _ (samplesOf_afterInit nid nid tid i), stage_afterInit]
    exact ok.quiet (XstatNode.ring_initCounter ..) (fun one => by cases one)
      (workingBuf_initCounter ..)
  | @restartPerf _ node' i _ _ _ done | @restart _ node' i _ done =>
    refine ⟨node', rfl, ?_⟩
    rw [silent _ rfl, stage_afterRestart]
    refine ⟨ok.chain, restartCounter_clockOk ok.words done, ?_⟩
    rw [XstatNode.pending, (XstatNode.restartCounter_spec done).ring_eq]
    exact ok.pending
  | commit =>
    refine ⟨node.commit, rfl, ?_⟩
    have sampled : samplesOf nid [.sample nid node.workingBuf] = [node.workingBuf] := by
      simp [samplesOf]
    rw [sampled]
    exact Chained.commit ok indexed
  | leave check =>
    refine ⟨node, rfl, ?_⟩
    rw [silent _ rfl]
    rcases check with rfl | rfl <;> exact ok
  | @exitPerf _ i | @exit _ i =>
    refine ⟨node, rfl, ?_⟩
    show Chained (records ++ samplesOf nid (afterExit nid tid i).2) (afterExit nid tid i).1.stage node
    rw [silent _ (samplesOf_afterExit nid nid tid i), stage_afterExit]
    exact ok

/-- A node's timestamps, up to the time that `clock` shows. -/
structure Forward (records : List Record) (clock : Nat) (node : XstatNode) : Prop where
  chain : records.IsChain fun record next => record.ts ≤ next.ts
  last_le : lastTs records ≤ node.workingBuf 0
  bound : (node.workingBuf 0).toNat ≤ clock

/-- A step that takes no sample, and leaves a timestamp no earlier than the one before. -/
theorem Forward.quiet {records : List Record} {clock clock' : Nat} {node node' : XstatNode}
    (ok : Forward records clock node) (low : node.workingBuf 0 ≤ node'.workingBuf 0)
    (high : (node'.workingBuf 0).toNat ≤ clock') : Forward records clock' node' :=
  ⟨ok.chain, BitVec.le_trans ok.last_le low, high⟩

theorem ThreadMove.forward {nid tid nextCtx clock clock' : Nat} {shouldStop : Bool} {node : XstatNode}
    {input : Input} {pc : SamplerPc} {after : ThreadStep} {records : List Record}
    (move : ThreadMove nid tid shouldStop nextCtx input pc (some node) after) (later : clock ≤ clock')
    (stamp : pc = .restart 0 → node.workingBuf 0 ≤ input.now ∧ input.now.toNat ≤ clock')
    (ok : Forward records clock node) :
    ∃ node', after.node = some node' ∧
      Forward (records ++ samplesOf nid after.events) clock' node' := by
  have silent : ∀ events, samplesOf nid events = [] →
      records ++ samplesOf nid events = records := by
    intro events empty
    rw [empty, List.append_nil]
  have same : ∀ node' : XstatNode, node'.workingBuf = node.workingBuf → Forward records clock' node' := by
    intro node' workingBuf
    have high := ok.bound.trans later
    exact ok.quiet (workingBuf ▸ BitVec.le_refl _) (by rwa [workingBuf])
  cases move with
  | run | cancel | afterRoll | sleep | wake | again | leave =>
    exact ⟨node, rfl, by rw [silent _ rfl]; exact same node rfl⟩
  | @initPerf _ i | @init _ i =>
    refine ⟨_, rfl, ?_⟩
    show Forward (records ++ samplesOf nid (afterInit nid tid i).2) clock' _
    rw [silent _ (samplesOf_afterInit nid nid tid i)]
    exact same _ (workingBuf_initCounter ..)
  | @restartPerf _ node' i _ _ _ done | @restart _ node' i _ done =>
    refine ⟨node', rfl, ?_⟩
    rw [silent _ rfl]
    have now := XstatNode.restartCounter_now done
    split at now
    · next first =>
      obtain ⟨low, high⟩ := stamp (by rw [first])
      exact ok.quiet (now ▸ low) (now ▸ high)
    · have high := ok.bound.trans later
      exact ok.quiet (now ▸ BitVec.le_refl _) (by rwa [now])
  | commit =>
    refine ⟨node.commit, rfl, ?_⟩
    have sampled : samplesOf nid [.sample nid node.workingBuf] = [node.workingBuf] := by
      simp [samplesOf]
    rw [sampled]
    refine ⟨isChain_concat ok.chain fun record ts => ts ▸ ok.last_le, ?_, ?_⟩
    · rw [lastTs_concat, XstatNode.workingBuf_commit]
      exact BitVec.le_refl _
    · rw [XstatNode.workingBuf_commit]
      exact ok.bound.trans later
  | @exitPerf _ i | @exit _ i =>
    refine ⟨node, rfl, ?_⟩
    show Forward (records ++ samplesOf nid (afterExit nid tid i).2) clock' node
    rw [silent _ (samplesOf_afterExit nid nid tid i)]
    exact same node rfl

/-- A thread samples its own node. -/
theorem ThreadMove.sample_own {nid tid nextCtx : Nat} {shouldStop : Bool} {node : Option XstatNode}
    {input : Input} {pc : SamplerPc} {after : ThreadStep}
    (move : ThreadMove nid tid shouldStop nextCtx input pc node after) {n : Nat}
    {record : Record} (member : Event.sample n record ∈ after.events) : n = nid := by
  have silentInit : ∀ i, Event.sample n record ∉ (afterInit nid tid i).2 := by
    intro i
    unfold afterInit
    split <;> simp
  have silentExit : ∀ i, Event.sample n record ∉ (afterExit nid tid i).2 := by
    intro i
    unfold afterExit
    split <;> simp
  cases move <;> simp_all

/-- The samples of a node that a thread's step is not about. -/
theorem samplesOf_other {nid tid nextCtx : Nat} {shouldStop : Bool} {node : Option XstatNode}
    {input : Input} {pc : SamplerPc} {after : ThreadStep}
    (move : ThreadMove nid tid shouldStop nextCtx input pc node after) {n : Nat}
    (other : n ≠ nid) : samplesOf n after.events = [] := by
  refine List.filterMap_eq_nil_iff.mpr fun event member => ?_
  cases event with
  | sample k record =>
    have apart : k ≠ n := by
      rintro rfl
      exact other (move.sample_own member)
    simp [apart]
  | _ => rfl

/-- What no thread does to a node takes pending samples off the front, or all of them. -/
theorem ModuleState.NodeMove.pending_suffix {node node' : XstatNode} (move : NodeMove node node')
    {returned : Prop} (ok : node.ReadOk returned) : node'.pending <:+ node.pending := by
  cases move with
  | task => exact List.suffix_refl _
  | reset count =>
    rw [XstatNode.pending, XstatNode.ring_storeResetAttr]
    split
    · exact List.nil_suffix
    · exact List.suffix_refl _
  | stat =>
    by_cases empty : node.bufferSize = 0
    · have same : node.showStatAttr.1 = node := by rw [XstatNode.showStatAttr_of_empty empty]
      exact ⟨[], congrArg XstatNode.pending same⟩
    · have done := ok.pending (Nat.pos_of_ne_zero empty)
      obtain ⟨count, _, result, _⟩ := XstatNode.showStatAttr_spec (ok.ready done) ok.indexed
      rw [result, XstatNode.pending_taken]
      exact List.drop_suffix count _

/-! ### The steps of the module -/

/-- The stage of a node's thread. -/
def ModuleState.stage (s : ModuleState) (nid : Nat) : Nat :=
  onThread s.samplers (fun _ pc => pc.stage) 0 (s.task nid)

theorem stage_xstatInit (maxNumnodes : Nat) (nodeOnline : Nat → Bool) (nid : Nat) :
    (xstatInit maxNumnodes nodeOnline).stage nid = 0 := by
  unfold stage onThread
  split <;> rfl

/-- The samples of every node form a chain, which its clock words continue. -/
def ClockInv (s : ModuleState) : Prop :=
  ∀ nid node, s.xstatNodes nid = some node → Chained (s.samples nid) (s.stage nid) node

theorem clockInv_xstatInit (maxNumnodes : Nat) (nodeOnline : Nat → Bool) :
    ClockInv (xstatInit maxNumnodes nodeOnline) := by
  intro nid node there
  obtain ⟨_, step⟩ := Option.ite_none_right_eq_some.mp there
  cases step
  rw [stage_xstatInit]
  exact ⟨.nil, rfl, List.suffix_refl _⟩

/-- The timestamps of every node go up, to no more than `clock`. -/
def ForwardInv (clock : Nat) (s : ModuleState) : Prop :=
  ∀ nid node, s.xstatNodes nid = some node → Forward (s.samples nid) clock node

theorem forwardInv_xstatInit (clock maxNumnodes : Nat) (nodeOnline : Nat → Bool) :
    ForwardInv clock (xstatInit maxNumnodes nodeOnline) := by
  intro nid node there
  obtain ⟨_, step⟩ := Option.ite_none_right_eq_some.mp there
  cases step
  exact ⟨.nil, BitVec.le_refl _, Nat.zero_le _⟩

/-- What `get_time` returned to the action, if that is a `ts_restart`: no less than the timestamp
before, and no more than `clock`. -/
def ModuleState.Stamped (s : ModuleState) (clock : Nat) (a : ModuleAction) : Prop :=
  ∀ tid input th node, a = .sampler tid input → s.samplers tid = some th → th.pc = .restart 0 →
    s.xstatNodes th.nid = some node → node.workingBuf 0 ≤ input.now ∧ input.now.toNat ≤ clock

section Steps

variable {maxNumnodes : Nat} {s s' : ModuleState}

/-- The nodes after a thread's step: its own one, and the others as they were. -/
theorem nodes_of_sampler (inv : CtrlInv maxNumnodes s) {tid : Nat} {th : Sampler} {input : Input}
    {after : ThreadStep} (thread : s.samplers tid = some th)
    (move : ThreadMove th.nid tid th.shouldStop s.nextCtx input th.pc (s.xstatNodes th.nid) after)
    {P : List Record → Nat → XstatNode → Prop}
    (own : ∀ node, s.xstatNodes th.nid = some node →
      ∃ node', after.node = some node' ∧
        P (s.samples th.nid ++ samplesOf th.nid after.events) after.pc.stage node')
    (others : ∀ nid node, nid ≠ th.nid → s.xstatNodes nid = some node →
      P (s.samples nid) (s.stage nid) node) :
    ∀ nid node, ((s.setNode th.nid after.node).setSampler tid { th with pc := after.pc }).xstatNodes nid =
        some node →
      P (samplesOf nid (s.history ++ after.events))
        (ModuleState.stage { (s.setNode th.nid after.node).setSampler tid { th with pc := after.pc } with
          nextCtx := after.nextCtx
          history := s.history ++ after.events } nid) node := by
  have alive := move.kept.alive
  have tasks : (s.setNode th.nid after.node).task = s.task := task_setNode_of_eq move.kept.task_eq
  intro nid found foundAt
  change (s.setNode th.nid after.node).xstatNodes nid = some found at foundAt
  show P _ (onThread (Function.update s.samplers tid _) _ 0 ((s.setNode _ _).task nid)) found
  rw [xstatNodes_setNode] at foundAt
  rw [tasks, samplesOf_append]
  by_cases same : nid = th.nid
  · subst same
    obtain ⟨node, there, _⟩ := task_eq_some (inv.owned tid th thread alive)
    obtain ⟨node', node_eq, mine⟩ := own node there
    rw [if_pos rfl, node_eq] at foundAt
    cases foundAt
    have now : onThread (Function.update s.samplers tid (some { th with pc := after.pc }))
        (fun _ pc => pc.stage) 0 (s.task th.nid) = after.pc.stage :=
      (inv.onThread_own thread alive after.pc).2
    rw [now]
    exact mine
  · rw [if_neg same] at foundAt
    rw [samplesOf_other move same, List.append_nil, inv.onThread_other thread _ same]
    exact others nid found same foundAt

/-- **One step** and the chain. -/
theorem ClockInv.step (chained : ClockInv s) (inv : CtrlInv maxNumnodes s) (read : ReadInv s)
    {a : ModuleAction} (taken : s.step maxNumnodes a = some s') : ClockInv s' := by
  by_cases thread : ∃ tid input, a = .sampler tid input
  · obtain ⟨tid, input, rfl⟩ := thread
    cases move_of_step taken with
    | @sampler _ _ th after thread move =>
      refine nodes_of_sampler inv thread move (fun node there => ?_) fun nid node _ => chained nid node
      have stage : s.stage th.nid = th.pc.stage :=
        (inv.onThread_own thread move.kept.alive after.pc).1
      rw [there] at move
      exact move.chained (read.nodes _ _ there).indexed (stage ▸ chained th.nid node there)
  · have other : ∀ tid input, a ≠ .sampler tid input := fun tid input is => thread ⟨tid, input, is⟩
    intro nid node' there
    obtain ⟨node, before, move⟩ := nodeMove_of_step taken other there
    have stage : s'.stage nid = s.stage nid :=
      inv.onThread_step (fun _ => rfl) (fun _ => rfl) (fun _ => rfl) taken other nid
    have ok := chained nid node before
    obtain ⟨ctxs, workingBuf⟩ := move.sameContexts
    rw [ModuleState.samples, history_of_step taken other, stage]
    refine ⟨ok.chain, ok.words.congr ctxs workingBuf, ?_⟩
    exact (move.pending_suffix (read.nodes nid node before)).trans ok.pending

/-- **One step** and the order, where the clock shows `clock'` after it. -/
theorem ForwardInv.step {clock clock' : Nat} (forward : ForwardInv clock s)
    (inv : CtrlInv maxNumnodes s) {a : ModuleAction} (later : clock ≤ clock')
    (stamped : s.Stamped clock' a) (taken : s.step maxNumnodes a = some s') :
    ForwardInv clock' s' := by
  by_cases thread : ∃ tid input, a = .sampler tid input
  · obtain ⟨tid, input, rfl⟩ := thread
    cases move_of_step taken with
    | @sampler _ _ th after thread move =>
      refine nodes_of_sampler (P := fun records _ node => Forward records clock' node) inv thread move
        (fun node there => ?_) fun nid node _ there => ?_
      · have stamp := stamped tid input th node rfl thread
        rw [there] at move stamp
        exact move.forward later (fun here => stamp here rfl) (forward th.nid node there)
      · have ok := forward nid node there
        exact ok.quiet (BitVec.le_refl _) (ok.bound.trans later)
  · have other : ∀ tid input, a ≠ .sampler tid input := fun tid input is => thread ⟨tid, input, is⟩
    intro nid node' there
    obtain ⟨node, before, move⟩ := nodeMove_of_step taken other there
    have ok := forward nid node before
    rw [ModuleState.samples, history_of_step taken other]
    exact ok.quiet (by rw [move.sameContexts.2]; exact BitVec.le_refl _)
      (by rw [move.sameContexts.2]; exact ok.bound.trans later)

/-- **What the invariants say of a node**: its samples follow each other, the pending ones are the last
of them, and a stat read prints some of those. -/
theorem chain_of_inv {clock : Nat} (chained : ClockInv s) (forward : ForwardInv clock s)
    (read : ReadInv s) {nid : Nat} {node : XstatNode} (there : s.xstatNodes nid = some node) :
    (s.samples nid).IsChain Follows ∧
    node.pending <:+ s.samples nid ∧ node.pending.IsChain Follows ∧
    ∃ node' read, node.showStatAttr = (node', some read) ∧
      read.text = read.records.flatMap recordLine ∧ read.records.IsChain Follows := by
  obtain ⟨reaches, _, suffix⟩ := chained nid node there
  have order := (forward nid node there).chain
  have chain : (s.samples nid).IsChain Follows := by
    rw [List.isChain_iff_getElem] at reaches order ⊢
    exact fun i inside => (reaches i inside).follows (order i inside)
  have pending := chain.suffix suffix
  refine ⟨chain, suffix, pending, ?_⟩
  have ok := read.nodes nid node there
  by_cases empty : node.bufferSize = 0
  · exact ⟨_, _, XstatNode.showStatAttr_of_empty empty, rfl, .nil⟩
  · obtain ⟨count, _, result, _⟩ :=
      XstatNode.showStatAttr_spec (ok.ready (ok.pending (Nat.pos_of_ne_zero empty))) ok.indexed
    exact ⟨_, _, result, rfl, pending.prefix (List.take_prefix count _)⟩

end Steps

end Xstats.Xstat
