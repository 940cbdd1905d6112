/-
**What a reader of the stat attribute can tell** (`show_stat_attr`, `print_buffer`, `roll_buffer`,
`store_reset_attr`).

A reader keeps the texts of all its stat reads. Samples that the ring overwrote, or that a reset
discarded, are not among them. Every line says when its sample was taken and how long after the one
before, so that the reader can tell where samples are missing. It computes as the module does, modulo
`2 ^ 64`: then it does not matter to it whether the clock went back.

* `Received.step`: what was read and what is pending are among the samples, in order, and nothing was
  read twice.
* `gaps_seen`: the texts give back the times of the samples read, and the reader's check passes if and
  only if these are consecutive samples.
-/

import Xstats.Lib.Gaps
import Xstats.Lib.JsonLines
import Xstats.Xstat.Timestamps

namespace Xstats.Xstat

open FlatJson Gaps Transition ModuleState

/-! ### The reader -/

/-- The timestamp and the interval of a line. -/
def readTime (ms : List Member) : Option (Int × Int) := do
  let ts ← ms.lookup "ts".toList
  let intv ← ms.lookup "intv".toList
  return (ts, intv)

/-- The timestamps and intervals of a text, if each of its lines shows them. -/
def readTimes (text : List Char) : Option (List (Int × Int)) :=
  (parseLines text).bind fun objects => objects.mapM readTime

/-- Each interval reaches back to the line before, modulo `2 ^ 64`. -/
def gapless (text : List Char) : Bool :=
  (readTimes text).any fun times =>
    decide (times.IsChain fun earlier later => later.1 = (earlier.1 + later.2) % 2 ^ 64)

/-- The times that a line shows of its record. -/
def Record.times (record : Record) : Int × Int := ((record.ts.toNat : Int), (record.intv.toNat : Int))

theorem readTime_recordMembers (record : Record) :
    readTime (recordMembers record) = some record.times := by
  have decodes := decodesTo_recordLine record
  have ts := lookup_of_mem decodes.keys_nodup (decodes.plain 0 rfl)
  have intv := lookup_of_mem decodes.keys_nodup (decodes.plain 1 rfl)
  have names : (nodeCounters 0).name = "ts" ∧ (nodeCounters 1).name = "intv" := ⟨rfl, rfl⟩
  rw [names.1] at ts
  rw [names.2] at intv
  simp only [readTime, ts, intv]
  rfl

/-- **Reading the lines of records gives back their times.** -/
theorem readTimes_recordLines (records : List Record) :
    readTimes (records.flatMap recordLine) = some (records.map Record.times) := by
  have lines : records.flatMap recordLine = renderLines (records.map recordMembers) := by
    rw [renderLines, List.flatMap_map]
    rfl
  have objects : parseLines (renderLines (records.map recordMembers)) =
      some (records.map recordMembers) := by
    refine parseLines_renderLines (fun ms member => ?_) fun ms member => ?_
    · obtain ⟨record, _, rfl⟩ := List.mem_map.mp member
      exact recordMembers_ne_nil record
    · obtain ⟨record, _, rfl⟩ := List.mem_map.mp member
      exact unescaped_recordMembers record
  rw [readTimes, lines, objects, Option.bind_some]
  exact mapM_eq_some fun record _ => readTime_recordMembers record

/-! ### What is read in a run -/

/-- What a step gives to a reader of the node's stat attribute. -/
def statRead (nid : Nat) (x : ModuleState × ModuleAction) : Option XstatNode.StatRead :=
  match x.2 with
  | .showStatAttr n => if n = nid then (x.1.xstatNodes n).bind fun node => node.showStatAttr.2 else none
  | _ => none

/-- The records that a run's stat reads of a node printed. -/
def consumed (nid : Nat) (trace : List (ModuleState × ModuleAction)) : List Record :=
  (trace.filterMap (statRead nid)).flatMap XstatNode.StatRead.records

/-- Their texts, one behind the other. -/
def consumedText (nid : Nat) (trace : List (ModuleState × ModuleAction)) : List Char :=
  (trace.filterMap (statRead nid)).flatMap XstatNode.StatRead.text

/-- What was read of a node and what is pending there are among its samples, each once and in order, and
the texts are the lines of what was read. -/
structure Received (nid : Nat) (trace : List (ModuleState × ModuleAction)) (s : ModuleState) : Prop where
  sublist : ∀ node, s.xstatNodes nid = some node →
    (consumed nid trace ++ node.pending).Sublist (s.samples nid)
  text : consumedText nid trace = (consumed nid trace).flatMap recordLine

/-- A write to the ring keeps what was among the samples there, and adds the new one. -/
theorem XstatNode.pending_commit_sublist {node : XstatNode} {before samples : List Record}
    (indexed : node.ring.WellIndexed xstatNbuf) (sublist : (before ++ node.pending).Sublist samples) :
    (before ++ node.commit.pending).Sublist (samples ++ [node.workingBuf]) := by
  rw [XstatNode.pending, XstatNode.ring_commit]
  exact RingBuffer.Buffer.contents_push_sublist indexed sublist node.workingBuf

/-- A step of the node's thread. -/
theorem ThreadMove.pending_sublist {nid tid nextCtx : Nat} {shouldStop : Bool} {node : XstatNode}
    {input : Input} {pc : SamplerPc} {after : ThreadStep} {before samples : List Record}
    (move : ThreadMove nid tid shouldStop nextCtx input pc (some node) after)
    (indexed : node.ring.WellIndexed xstatNbuf)
    (sublist : (before ++ node.pending).Sublist samples) :
    ∃ node', after.node = some node' ∧
      (before ++ node'.pending).Sublist (samples ++ samplesOf nid after.events) := by
  have kept : ∀ (node' : XstatNode) (events : List Event), node'.ring = node.ring →
      (before ++ node'.pending).Sublist (samples ++ samplesOf nid events) := by
    intro node' events ring
    rw [XstatNode.pending, ring]
    exact sublist.trans (List.sublist_append_left _ _)
  cases move with
  | run | cancel | afterRoll | sleep | wake | again | leave | exitPerf | exit =>
    exact ⟨node, rfl, kept node _ rfl⟩
  | @initPerf _ i | @init _ i => exact ⟨_, rfl, kept _ _ (XstatNode.ring_initCounter ..)⟩
  | @restartPerf _ node' i _ _ _ done | @restart _ node' i _ done =>
    exact ⟨node', rfl, kept node' _ (XstatNode.restartCounter_spec done).ring_eq⟩
  | commit =>
    have sampled : samplesOf nid [.sample nid node.workingBuf] = [node.workingBuf] := by
      simp [samplesOf]
    refine ⟨node.commit, rfl, ?_⟩
    rw [sampled]
    exact XstatNode.pending_commit_sublist indexed sublist

section Steps

variable {maxNumnodes nid : Nat} {trace : List (ModuleState × ModuleAction)} {s s' : ModuleState}

/-- A stat read takes from the front of what is pending what it prints, and something if there is
anything. -/
theorem XstatNode.ReadOk.stat_split {node : XstatNode} {returned : Prop} (ok : node.ReadOk returned) :
    ∃ read, node.showStatAttr.2 = some read ∧ read.text = read.records.flatMap recordLine ∧
      node.pending = read.records ++ node.showStatAttr.1.pending ∧
      (read.records = [] → node.showStatAttr.1.pending = []) := by
  by_cases empty : node.bufferSize = 0
  · have none : node.pending = [] :=
      List.eq_nil_of_length_eq_zero ((RingBuffer.Buffer.length_contents ..).trans empty)
    rw [XstatNode.showStatAttr_of_empty empty]
    exact ⟨_, rfl, rfl, rfl, fun _ => none⟩
  · have some := Nat.pos_of_ne_zero empty
    obtain ⟨count, _, result, _, progress⟩ :=
      XstatNode.showStatAttr_spec (ok.ready (ok.pending some)) ok.indexed
    rw [result]
    refine ⟨_, rfl, rfl, ?_, fun nothing => ?_⟩
    · rw [XstatNode.pending_taken, List.take_append_drop]
    · have taken := progress some
      rcases List.take_eq_nil_iff.mp nothing with zero | none
      · omega
      · rw [XstatNode.pending_taken, none, List.drop_nil]

theorem consumed_append (nid : Nat) (trace : List (ModuleState × ModuleAction))
    (x : ModuleState × ModuleAction) :
    consumed nid (trace ++ [x]) =
      consumed nid trace ++ ((statRead nid x).map XstatNode.StatRead.records).getD [] := by
  unfold consumed
  rw [List.filterMap_append, List.flatMap_append]
  cases read : statRead nid x <;> simp [read]

theorem consumedText_append (nid : Nat) (trace : List (ModuleState × ModuleAction))
    (x : ModuleState × ModuleAction) :
    consumedText nid (trace ++ [x]) =
      consumedText nid trace ++ ((statRead nid x).map XstatNode.StatRead.text).getD [] := by
  unfold consumedText
  rw [List.filterMap_append, List.flatMap_append]
  cases read : statRead nid x <;> simp [read]

/-- A step that reads nothing of the node. -/
theorem Received.quiet (read : Received nid trace s) {a : ModuleAction}
    (other : statRead nid (s, a) = none)
    (sublist : ∀ node, s'.xstatNodes nid = some node →
      (consumed nid trace ++ node.pending).Sublist (s'.samples nid)) :
    Received nid (trace ++ [(s, a)]) s' := by
  constructor
  · rw [consumed_append, other]
    simpa using sublist
  · rw [consumed_append, consumedText_append, other]
    simpa using read.text

theorem Received.sampler (read : Received nid trace s) (inv : CtrlInv maxNumnodes s) (ok : ReadInv s)
    {tid : Nat} {input : Input} (taken : s.step maxNumnodes (.sampler tid input) = some s') :
    Received nid (trace ++ [(s, .sampler tid input)]) s' := by
  refine read.quiet rfl fun found foundAt => ?_
  cases move_of_step taken with
  | @sampler _ _ th after thread move =>
    obtain ⟨node, there, _⟩ := task_eq_some (inv.owned tid th thread move.kept.alive)
    change (s.setNode th.nid after.node).xstatNodes nid = some found at foundAt
    show (consumed nid trace ++ found.pending).Sublist (samplesOf nid (s.history ++ after.events))
    rw [xstatNodes_setNode] at foundAt
    rw [samplesOf_append]
    by_cases own : nid = th.nid
    · rw [if_pos own] at foundAt
      subst own
      rw [there] at move
      obtain ⟨node', node_eq, sublist⟩ :=
        move.pending_sublist (ok.nodes _ _ there).indexed (read.sublist node there)
      rw [node_eq] at foundAt
      cases foundAt
      exact sublist
    · rw [if_neg own] at foundAt
      rw [samplesOf_other move own, List.append_nil]
      exact read.sublist found foundAt

/-- **A step keeps it.** -/
theorem Received.step (read : Received nid trace s) (inv : CtrlInv maxNumnodes s) (ok : ReadInv s)
    {a : ModuleAction} (taken : s.step maxNumnodes a = some s') :
    Received nid (trace ++ [(s, a)]) s' := by
  by_cases thread : ∃ tid input, a = .sampler tid input
  · obtain ⟨tid, input, rfl⟩ := thread
    exact read.sampler inv ok taken
  have other : ∀ tid input, a ≠ .sampler tid input := fun tid input is => thread ⟨tid, input, is⟩
  have samples : s'.samples nid = s.samples nid :=
    congrArg (samplesOf nid) (history_of_step taken other)
  by_cases mine : a = .showStatAttr nid
  · subst mine
    cases move_of_step taken with
    | @stat _ node there =>
      obtain ⟨result, reads, text, split, _⟩ := (ok.nodes nid node there).stat_split
      have given : statRead nid (s, .showStatAttr nid) = some result := by
        simp only [statRead, if_true, there, Option.bind_some, reads]
      constructor
      · intro found foundAt
        rw [xstatNodes_setNode, if_pos rfl] at foundAt
        cases foundAt
        rw [consumed_append, given, samples]
        simpa [split] using read.sublist node there
      · rw [consumed_append, consumedText_append, given, read.text]
        simp [text]
  · have none : statRead nid (s, a) = none := by
      cases a with
      | showStatAttr n =>
        have apart : n ≠ nid := fun same => mine (by rw [same])
        simp only [statRead, if_neg apart]
      | _ => rfl
    refine read.quiet none fun found foundAt => ?_
    obtain ⟨node, before, move⟩ := nodeMove_of_step taken other foundAt
    rw [samples]
    exact ((move.pending_suffix (ok.nodes nid node before)).sublist.append_left _).trans
      (read.sublist node before)

end Steps

/-! ### Runs -/

/-- What the reader's check of two lines says of their records. -/
theorem times_eq_iff {record next : Record} :
    next.times.1 = (record.times.1 + next.times.2) % 2 ^ 64 ↔ ReachesBack record next := by
  have words : ReachesBack record next ↔
      next.ts.toNat = (record.ts.toNat + next.intv.toNat) % 2 ^ 64 := by
    rw [ReachesBack, ← BitVec.toNat_inj, BitVec.toNat_add]
  rw [words]
  simp only [Record.times]
  omega

/-- Where no two samples bear one timestamp, each can be after one of them only. -/
theorem leftUnique_reachesBack {samples : List Record} (distinct : (samples.map Record.ts).Nodup) :
    LeftUnique ReachesBack samples := by
  intro a inA b inB c after after'
  have same : a.ts + c.intv = b.ts + c.intv := by
    rw [← show c.ts = a.ts + c.intv from after]
    exact after'
  exact List.inj_on_of_nodup_map distinct inA inB ((BitVec.add_left_inj c.intv).mp same)

theorem gapless_recordLines_iff (records : List Record) :
    gapless (records.flatMap recordLine) = true ↔ records.IsChain ReachesBack := by
  rw [gapless, readTimes_recordLines, Option.any_some, decide_eq_true_iff, List.isChain_map]
  simp only [times_eq_iff]

/-- **A reader sees every gap.** In every state of every run, whatever is switched, reset or read,
whatever `get_time` returns and whichever samples the ring overwrites: where no two samples of the node
bear the same timestamp, the texts of its stat reads give back the times of the records read, which with
those pending are among the samples, in order and each once; the reader's check of these texts passes if
and only if the records read are consecutive samples, and of two neighbours among them the later's
interval reaches back to the earlier if and only if no sample was taken between them. -/
theorem gaps_seen {maxNumnodes : Nat} {nodeOnline : Nat → Bool}
    {trace : List (ModuleState × ModuleAction)} {s : ModuleState}
    (run : Run (ModuleState.step maxNumnodes) (xstatInit maxNumnodes nodeOnline) trace s)
    {nid : Nat} {node : XstatNode} (there : s.xstatNodes nid = some node)
    (distinct : ((s.samples nid).map Record.ts).Nodup) :
    readTimes (consumedText nid trace) = some ((consumed nid trace).map Record.times) ∧
    (consumed nid trace ++ node.pending).Sublist (s.samples nid) ∧
    (gapless (consumedText nid trace) = true ↔ consumed nid trace <:+: s.samples nid) ∧
    ∀ front record next back, consumed nid trace = front ++ record :: next :: back →
      (ReachesBack record next ↔ [record, next] <:+: s.samples nid) := by
  have whole : (CtrlInv maxNumnodes s ∧ ReadInv s ∧ ClockInv s) ∧ Received nid trace s := by
    clear there distinct
    induction run with
    | nil =>
      refine ⟨⟨ctrlInv_xstatInit maxNumnodes nodeOnline, readInv_xstatInit maxNumnodes nodeOnline,
        clockInv_xstatInit maxNumnodes nodeOnline⟩, fun node there => ?_, rfl⟩
      obtain ⟨_, step⟩ := Option.ite_none_right_eq_some.mp there
      cases step
      exact List.Sublist.refl _
    | snoc _ taken ih =>
      obtain ⟨⟨inv, ok, clock⟩, read⟩ := ih
      exact ⟨⟨inv.step taken, ok.step inv taken, clock.step inv ok taken⟩, read.step inv ok taken⟩
  obtain ⟨⟨_, _, clock⟩, read⟩ := whole
  have chain : (s.samples nid).IsChain ReachesBack :=
    (clock nid node there).chain
  have nodup : (s.samples nid).Nodup := distinct.of_map Record.ts
  have unique := leftUnique_reachesBack distinct
  have sublist := (List.sublist_append_left _ _).trans (read.sublist node there)
  refine ⟨?_, read.sublist node there, ?_, fun front record next back split => ?_⟩
  · rw [read.text, readTimes_recordLines]
  · rw [read.text, gapless_recordLines_iff, infix_iff_isChain chain nodup unique sublist]
  · rw [split] at sublist
    exact (adjacent_iff chain nodup unique sublist).symm

/-- A node is sampled and read, sampled and reset, and sampled and read again. -/
def readAroundReset : List ModuleAction :=
  List.flatten [switchedOn 34, [.showStatAttr 0], (switchedOn 55).drop 37, [.storeResetAttr 0 1],
    (switchedOn 76).drop 58, [.showStatAttr 0]]

/-- The reader sees that a sample is missing between the two it has. -/
theorem gaps_seen_around_reset :
    ∃ trace s, Run (ModuleState.step 1) (xstatInit 1 fun _ => true) trace s ∧
      (consumed 0 trace).length = 2 ∧ (s.samples 0).length = 3 ∧
      gapless (consumedText 0 trace) = false := by
  have done : (exec (ModuleState.step 1) (xstatInit 1 fun _ => true) readAroundReset).any fun s =>
      (s.xstatNodes 0).isSome && ((s.samples 0).map fun r => r.ts.toNat) == [17, 38, 59] := by
    decide +kernel
  have times : (consumed 0 (visits (ModuleState.step 1) (xstatInit 1 fun _ => true)
      readAroundReset)).map (fun r => r.ts.toNat) = [17, 59] := by decide +kernel
  obtain ⟨s, reached, passed⟩ := (Option.any_eq_true _ _).mp done
  simp only [Bool.and_eq_true, beq_iff_eq] at passed
  obtain ⟨some, samples⟩ := passed
  obtain ⟨node, there⟩ := Option.isSome_iff_exists.mp some
  have distinct : ((s.samples 0).map Record.ts).Nodup := by
    have numbers : (((s.samples 0).map Record.ts).map BitVec.toNat).Nodup := by
      rw [List.map_map]
      exact samples ▸ (by decide : [17, 38, 59].Nodup)
    exact numbers.of_map BitVec.toNat
  have run := run_visits reached
  have seen := (gaps_seen run there distinct).2.2.1
  refine ⟨_, s, run, ?_, ?_, ?_⟩
  · simpa using congrArg List.length times
  · simpa using congrArg List.length samples
  · rw [Bool.eq_false_iff, ne_eq, seen]
    intro consecutive
    have part := consecutive.map fun r => r.ts.toNat
    rw [times, samples] at part
    exact absurd part (by decide)

end Xstats.Xstat
