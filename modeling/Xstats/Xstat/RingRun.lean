/-
**Runs of a node's ring.**

A node is driven by the five operations that touch its ring or its contexts, in any order. Beside
it runs the overwriting queue that the ring stands for, which sees only what the operations gave
out: the sample of a roll, the samples of a stat read, a reset.

* `RingInv.apply`: every operation keeps the ring and the queue in step.
* `initialised_applyAll`, `getElem?_applyAll`: once the contexts are set, every roll takes a sample.
* `ring_refines_fifo`: hence after any operations, in any order, the ring holds the queue's pending
  samples at the indices the source computes, and the stat reads delivered what the queue's ledger
  says they delivered.
-/

import Xstats.Xstat.Restart
import Xstats.Xstat.StatText

namespace Xstats.Xstat

open RingBuffer

/-- What can happen to a node between registration and removal. -/
inductive NodeOp
  | initCounters (allocated : Fin xstatNcnt → Nat)
  | rollBuffer (inputs : Fin xstatNcnt → Input)
  | storeResetAttr (count : Nat)
  | showStatAttr
  | showLastAttr

/-- What an operation gave out. `fault` is the null pointer of a context that was never set. -/
inductive NodeOut
  | done
  | rolled (sample : Record)
  | stat (read : XstatNode.StatRead)
  | last (text : List Char)
  | fault

namespace XstatNode

/-- One operation. A faulting roll or read leaves the ring as it is. -/
def apply (node : XstatNode) : NodeOp → XstatNode × NodeOut
  | .initCounters allocated => (node.initCounters allocated, .done)
  | .rollBuffer inputs =>
    match node.rollBuffer inputs with
    | some node' => (node', .rolled node'.workingBuf)
    | none => (node, .fault)
  | .storeResetAttr count => (node.storeResetAttr count, .done)
  | .showStatAttr =>
    match node.showStatAttr with
    | (node', some read) => (node', .stat read)
    | (node', none) => (node', .fault)
  | .showLastAttr =>
    match node.showLastAttr with
    | some text => (node, .last text)
    | none => (node, .fault)

/-- The operations one after the other: the node they leave, and what each gave out. -/
def applyAll (node : XstatNode) : List NodeOp → XstatNode × List NodeOut
  | [] => (node, [])
  | op :: rest =>
    let (node', out) := node.apply op
    let (last, outs) := node'.applyAll rest
    (last, out :: outs)

/-- What an operation gives out, it gives out after those before it. -/
theorem getElem?_applyAll {ops : List NodeOp} {k : Nat} {op : NodeOp} (here : ops[k]? = some op)
    (node : XstatNode) :
    (node.applyAll ops).2[k]? = some ((node.applyAll (ops.take k)).1.apply op).2 := by
  induction ops generalizing node k with
  | nil => cases here
  | cons first rest ih =>
    cases k with
    | zero =>
      cases here
      rfl
    | succ k => exact ih here (node.apply first).1

/-- The entries stay set. -/
theorem initialised_apply {node : XstatNode} (initialised : node.Initialised) (op : NodeOp) :
    (node.apply op).1.Initialised := by
  have same : ∀ node' : XstatNode, node'.ctxs = node.ctxs → node'.Initialised := by
    intro node' ctxs i
    simpa only [CanRestart, ctxs] using initialised i
  cases op with
  | initCounters allocated => exact initialised_initCounters node allocated
  | rollBuffer inputs =>
    simp only [apply]
    split
    · next node' done =>
      have set : ∀ j, (nodeCounters j).restart = .perfRestart ∨
          (nodeCounters j).restart = .xstatIpmiRestart → (nodeCounters j).init.isSome := by decide
      obtain ⟨_, ctxs, _⟩ := rollBuffer_spec done
      intro i
      refine ⟨fun restart => ?_, fun restart => ?_⟩
      · rw [ctxs i (set i (.inl restart))]
        exact (initialised i).1 restart
      · rw [ctxs i (set i (.inr restart))]
        exact (initialised i).2 restart
    · exact initialised
  | storeResetAttr count => exact same _ (ctxs_storeResetAttr ..)
  | showStatAttr =>
    have ctxs := node.sameContexts_showStatAttr.ctxs_eq
    simp only [apply]
    split <;> next read => exact same _ (by rw [read] at ctxs; exact ctxs)
  | showLastAttr =>
    simp only [apply]
    split <;> exact initialised

/-- Once `init_counters` was called they are set. -/
theorem initialised_applyAll {node : XstatNode} {ops : List NodeOp}
    (set : node.Initialised ∨ ∃ allocated, NodeOp.initCounters allocated ∈ ops) :
    (node.applyAll ops).1.Initialised := by
  induction ops generalizing node with
  | nil =>
    rcases set with initialised | ⟨_, member⟩
    · exact initialised
    · cases member
  | cons op rest ih =>
    refine ih ?_
    rcases set with initialised | ⟨allocated, member⟩
    · exact .inl (initialised_apply initialised op)
    · rcases List.mem_cons.mp member with rfl | later
      · exact .inl (initialised_initCounters node allocated)
      · exact .inr ⟨allocated, later⟩

end XstatNode

/-! ### The queue beside it -/

/-- The samples taken. -/
def rolledSamples (outs : List NodeOut) : List Record :=
  outs.flatMap fun | .rolled sample => [sample] | _ => []

/-- The samples the stat reads printed. -/
def statSamples (outs : List NodeOut) : List Record :=
  outs.flatMap fun | .stat read => read.records | _ => []

/-- The text of all stat reads. -/
def statText (outs : List NodeOut) : List Char :=
  outs.flatMap fun | .stat read => read.text | _ => []

/-- The queue's view of an operation and of what it gave out. -/
def fifoStep (fifo : Ledger Record) : NodeOp × NodeOut → Ledger Record
  | (.rollBuffer _, .rolled sample) => fifo.push xstatNbuf sample
  | (.storeResetAttr count, _) => if count > 0 then fifo.clear else fifo
  | (.showStatAttr, .stat read) => fifo.deliver read.records.length
  | _ => fifo

/-- The queue after a list of operations and what they gave out. -/
def fifoRun (ops : List NodeOp) (outs : List NodeOut) : Ledger Record :=
  (ops.zip outs).foldl fifoStep .empty

/-- The ring and its queue after operations that gave out `outs`. -/
structure RingInv (node : XstatNode) (fifo : Ledger Record) (outs : List NodeOut) : Prop where
  indexed : node.ring.WellIndexed xstatNbuf
  held : node.pending = fifo.pending
  accepted : fifo.accepted = rolledSamples outs
  delivered : fifo.withFate .delivered = statSamples outs
  printed : statText outs = (statSamples outs).flatMap recordLine
  /-- An IPMI entry is either still null or the address of its own group. -/
  entries : ∀ i group, (nodeCounters i).data = .ipmi group →
    node.ctxs i = .null ∨ node.ctxs i = .ipmi group
  /-- A roll needs the contexts, so that they are set once there was one. -/
  ready : rolledSamples outs ≠ [] → node.IpmiReady
  newest : ∀ sample, (rolledSamples outs).getLast? = some sample →
    node.ring.last xstatNbuf = sample

@[simp] theorem rolledSamples_append (first second : List NodeOut) :
    rolledSamples (first ++ second) = rolledSamples first ++ rolledSamples second :=
  List.flatMap_append

@[simp] theorem statSamples_append (first second : List NodeOut) :
    statSamples (first ++ second) = statSamples first ++ statSamples second :=
  List.flatMap_append

@[simp] theorem statText_append (first second : List NodeOut) :
    statText (first ++ second) = statText first ++ statText second :=
  List.flatMap_append

theorem ringInv_register (nid : Nat) : RingInv (registerXstatNode nid) .empty [] where
  indexed := ⟨Nat.zero_lt_succ _, Nat.zero_lt_succ _, Nat.zero_le _, rfl⟩
  held := rfl
  accepted := rfl
  delivered := rfl
  printed := rfl
  entries := fun _ _ _ => .inl rfl
  ready := fun some => absurd rfl some
  newest := fun _ last => by cases last

namespace RingInv

variable {node : XstatNode} {fifo : Ledger Record} {outs : List NodeOut}

/-- A pending sample was rolled, so that the contexts are set. -/
theorem ready_of_pending (inv : RingInv node fifo outs) (some : node.pending ≠ []) :
    node.IpmiReady := by
  apply inv.ready
  rw [← inv.accepted, Ledger.accepted, ← inv.held]
  exact List.append_ne_nil_of_right_ne_nil _ some

/-- A stat read delivers a part of the pending samples from the front. -/
theorem showStatAttr (inv : RingInv node fifo outs) :
    ∃ count, node.showStatAttr = (node.taken count,
      some { text := (node.pending.take count).flatMap recordLine
             records := node.pending.take count }) ∧ count ≤ node.bufferSize := by
  by_cases empty : node.pending = []
  · have size : node.bufferSize = 0 := by
      have length : node.pending.length = node.bufferSize := Buffer.length_contents _ _
      rw [← length, empty, List.length_nil]
    refine ⟨0, ?_, Nat.zero_le _⟩
    rw [XstatNode.taken_zero inv.indexed.base_lt]
    simp [XstatNode.showStatAttr, size, XstatNode.showStatLoop]
  · obtain ⟨count, within, read, _⟩ :=
      XstatNode.showStatAttr_spec (inv.ready_of_pending empty) inv.indexed
    exact ⟨count, read, within⟩

/-- An operation that gives out neither a sample nor a read, and leaves the ring alone. -/
theorem quiet (inv : RingInv node fifo outs) {node' : XstatNode} {out : NodeOut}
    (ring : node'.ring = node.ring)
    (entries : ∀ i group, (nodeCounters i).data = .ipmi group →
      node'.ctxs i = node.ctxs i ∨ node'.ctxs i = .ipmi group)
    (sample : rolledSamples [out] = []) (records : statSamples [out] = [])
    (text : statText [out] = []) : RingInv node' fifo (outs ++ [out]) where
  indexed := ring ▸ inv.indexed
  held := by rw [XstatNode.pending, ring]; exact inv.held
  accepted := by simpa [sample] using inv.accepted
  delivered := by simpa [records] using inv.delivered
  printed := by simpa [records, text] using inv.printed
  entries := fun i group data => by
    rcases entries i group data with kept | set
    · rw [kept]
      exact inv.entries i group data
    · exact .inr set
  ready := fun some i group data => by
    rcases entries i group data with kept | set
    · rw [kept]
      exact inv.ready (by simpa [sample] using some) i group data
    · exact set
  newest := fun x last => by
    rw [ring]
    exact inv.newest x (by simpa [sample] using last)

theorem initCounters (inv : RingInv node fifo outs) (allocated : Fin xstatNcnt → Nat) :
    RingInv (node.initCounters allocated) fifo (outs ++ [.done]) :=
  inv.quiet (XstatNode.ring_initCounters node allocated)
    (fun i group data => .inr (XstatNode.ipmiReady_initCounters node allocated i group data))
    rfl rfl rfl

theorem rollBuffer (inv : RingInv node fifo outs) {inputs : Fin xstatNcnt → Input}
    {node' : XstatNode} (done : node.rollBuffer inputs = some node') :
    RingInv node' (fifo.push xstatNbuf node'.workingBuf) (outs ++ [.rolled node'.workingBuf]) := by
  have own : ∀ i group, (nodeCounters i).data = .ipmi group →
      (nodeCounters i).init.isSome ∧ (nodeCounters i).restart = .xstatIpmiRestart := by decide
  obtain ⟨ring, kept, initialised⟩ := XstatNode.rollBuffer_spec done
  have ready : node'.IpmiReady := by
    intro i group data
    obtain ⟨set, restart⟩ := own i group data
    rw [kept i set]
    obtain ⟨found, entry⟩ := (initialised i).2 restart
    rcases inv.entries i group data with null | ours
    · rw [null] at entry
      cases entry
    · exact ours
  have sample : rolledSamples (outs ++ [.rolled node'.workingBuf]) =
      rolledSamples outs ++ [node'.workingBuf] := rolledSamples_append _ _
  constructor
  case indexed => exact ring ▸ inv.indexed.push _
  case held =>
    rw [XstatNode.pending, ring]
    exact Buffer.contents_push inv.indexed fifo inv.held _
  case accepted => rw [Ledger.accepted_push, inv.accepted, sample]
  case delivered =>
    rw [Ledger.withFate_push, inv.delivered, statSamples_append]
    exact (List.append_nil _).symm
  case printed =>
    rw [statSamples_append, statText_append, inv.printed]
    simp [statSamples, statText]
  case entries => exact fun i group data => .inr (ready i group data)
  case ready => exact fun _ => ready
  case newest =>
    intro x last
    rw [sample, List.getLast?_append_of_ne_nil _ (List.cons_ne_nil _ _)] at last
    cases last
    rw [ring]
    exact Buffer.last_push (by decide) inv.indexed.next_lt _

theorem storeResetAttr (inv : RingInv node fifo outs) {count : Nat} (positive : count > 0) :
    RingInv (node.storeResetAttr count) fifo.clear (outs ++ [.done]) := by
  have ring : (node.storeResetAttr count).ring = node.ring.clear := by
    rw [XstatNode.ring_storeResetAttr, if_pos positive]
  have ctxs : (node.storeResetAttr count).ctxs = node.ctxs := XstatNode.ctxs_storeResetAttr ..
  constructor
  case indexed => exact ring ▸ inv.indexed.clear
  case held => rw [XstatNode.pending, ring, Buffer.contents_clear, Ledger.pending_clear]
  case accepted => simpa [rolledSamples] using inv.accepted
  case delivered => simpa [statSamples, Ledger.withFate_clear] using inv.delivered
  case printed => simpa [statSamples, statText] using inv.printed
  case entries => exact fun i group data => ctxs ▸ inv.entries i group data
  case ready =>
    intro some i group data
    rw [ctxs]
    exact inv.ready (by simpa [rolledSamples] using some) i group data
  case newest =>
    intro x last
    rw [ring]
    exact inv.newest x (by simpa [rolledSamples] using last)

theorem taken (inv : RingInv node fifo outs) {count : Nat} (within : count ≤ node.bufferSize) :
    RingInv (node.taken count) (fifo.deliver (node.pending.take count).length)
      (outs ++ [.stat { text := (node.pending.take count).flatMap recordLine
                        records := node.pending.take count }]) := by
  have length : node.pending.length = node.bufferSize := Buffer.length_contents _ _
  have size : (node.pending.take count).length = count := by
    rw [List.length_take, length, Nat.min_eq_left within]
  rw [size]
  constructor
  case indexed => exact inv.indexed.drop within
  case held => rw [XstatNode.pending_taken, inv.held, Ledger.pending_deliver]
  case accepted => simpa [rolledSamples] using inv.accepted
  case delivered =>
    rw [Ledger.withFate_deliver, inv.delivered, inv.held, statSamples_append]
    simp [statSamples]
  case printed =>
    rw [statText_append, statSamples_append, List.flatMap_append, inv.printed]
    simp [statText, statSamples]
  case entries => exact inv.entries
  case ready => exact fun some => inv.ready (by simpa [rolledSamples] using some)
  case newest => exact fun x last => inv.newest x (by simpa [rolledSamples] using last)

/-- **One operation.** -/
theorem apply (inv : RingInv node fifo outs) (op : NodeOp) :
    RingInv (node.apply op).1 (fifoStep fifo (op, (node.apply op).2))
      (outs ++ [(node.apply op).2]) := by
  have fault : RingInv node fifo (outs ++ [.fault]) :=
    inv.quiet rfl (fun _ _ _ => .inl rfl) rfl rfl rfl
  cases op with
  | initCounters allocated => exact inv.initCounters allocated
  | rollBuffer inputs =>
    simp only [XstatNode.apply]
    cases rolled : node.rollBuffer inputs with
    | none => exact fault
    | some node' => exact inv.rollBuffer rolled
  | storeResetAttr count =>
    by_cases positive : count > 0
    · simpa [XstatNode.apply, fifoStep, positive] using inv.storeResetAttr positive
    · have kept : node.storeResetAttr count = node := if_neg positive
      have same : RingInv node fifo (outs ++ [.done]) :=
        inv.quiet rfl (fun _ _ _ => .inl rfl) rfl rfl rfl
      simpa [XstatNode.apply, fifoStep, positive, kept] using same
  | showStatAttr =>
    obtain ⟨count, read, within⟩ := inv.showStatAttr
    simpa only [XstatNode.apply, read, fifoStep] using inv.taken within
  | showLastAttr =>
    simp only [XstatNode.apply]
    cases node.showLastAttr with
    | none => exact fault
    | some text => exact inv.quiet rfl (fun _ _ _ => .inl rfl) rfl rfl rfl

/-- All operations: the queue goes on from where it was. -/
theorem applyAll (inv : RingInv node fifo outs) (ops : List NodeOp) :
    RingInv (node.applyAll ops).1 ((ops.zip (node.applyAll ops).2).foldl fifoStep fifo)
      (outs ++ (node.applyAll ops).2) := by
  induction ops generalizing node fifo outs with
  | nil => simpa [XstatNode.applyAll] using inv
  | cons op rest ih => simpa [XstatNode.applyAll] using ih (inv.apply op)

end RingInv

/-- **The ring refines an overwriting queue of 256.** After any operations on a registered node:
the indices are in range and hang together, the slots from the base on hold the queue's pending
samples in order, the queue was offered the samples rolled, and what it delivered is what the stat
reads printed, line by line. Once `init_counters` was called every roll takes a sample, which bears the
time that it read, and no stat read ever faults. A stat read removes from the front what it prints, and
once a sample was rolled the last attribute shows the newest one. -/
theorem ring_refines_fifo (nid : Nat) (ops : List NodeOp) :
    let node := ((registerXstatNode nid).applyAll ops).1
    let outs := ((registerXstatNode nid).applyAll ops).2
    let fifo := fifoRun ops outs
    (node.bufferBase < 256 ∧ node.bufferNext < 256 ∧ node.bufferSize ≤ 256 ∧
      node.bufferNext = (node.bufferBase + node.bufferSize) % 256) ∧
    (node.bufferSize = fifo.pending.length ∧
      ∀ k (inside : k < fifo.pending.length),
        node.buffer ((node.bufferBase + k) % 256) = fifo.pending[k]) ∧
    (fifo.accepted = rolledSamples outs ∧
      fifo.withFate .delivered = statSamples outs ∧
      statText outs = (statSamples outs).flatMap recordLine ∧
      (statSamples outs).Sublist (rolledSamples outs)) ∧
    ((∀ (k : Nat) inputs, ops[k]? = some (.rollBuffer inputs) →
        (∃ allocated, NodeOp.initCounters allocated ∈ ops.take k) →
        ∃ sample, outs[k]? = some (.rolled sample) ∧ sample.ts = (inputs 0).now) ∧
      ∀ k : Nat, ops[k]? = some .showStatAttr → ∃ read, outs[k]? = some (.stat read)) ∧
    (∃ node' read, node.showStatAttr = (node', some read) ∧
      node.pending = read.records ++ node'.pending ∧
      read.text = read.records.flatMap recordLine) ∧
    ((node.apply .showLastAttr).1 = node ∧
      ∀ newest, (rolledSamples outs).getLast? = some newest →
        node.showLastAttr = some (recordLine newest)) := by
  intro node outs fifo
  have invOf : ∀ ops, RingInv ((registerXstatNode nid).applyAll ops).1
      (fifoRun ops ((registerXstatNode nid).applyAll ops).2) ((registerXstatNode nid).applyAll ops).2 := by
    intro ops
    have reached := (ringInv_register nid).applyAll ops
    rwa [List.nil_append] at reached
  have inv : RingInv node fifo outs := invOf ops
  have size : fifo.pending.length = node.bufferSize := by
    rw [← inv.held]
    exact Buffer.length_contents _ _
  refine ⟨⟨inv.indexed.base_lt, inv.indexed.next_lt, inv.indexed.size_le, inv.indexed.next_eq⟩,
    ⟨size.symm, fun k inside => ?_⟩, ⟨inv.accepted, inv.delivered, inv.printed, ?_⟩,
    ⟨fun k inputs here set => ?_, fun k here => ?_⟩, ?_, ?_, ?_⟩
  · have there : k < (node.ring.contents xstatNbuf).length := by
      rw [show node.ring.contents xstatNbuf = fifo.pending from inv.held]
      exact inside
    have slot := Buffer.getElem_contents there
    rw [← show (node.ring.contents xstatNbuf)[k] = fifo.pending[k] from
      List.getElem_of_eq inv.held there, slot]
    rfl
  · rw [← inv.delivered, ← inv.accepted]
    exact fifo.withFate_sublist .delivered
  · obtain ⟨node', done⟩ := Option.isSome_iff_exists.mp
      (XstatNode.isSome_rollBuffer inputs (XstatNode.initialised_applyAll (.inr set)))
    refine ⟨node'.workingBuf, ?_, XstatNode.rollBuffer_now done⟩
    rw [XstatNode.getElem?_applyAll here, XstatNode.apply, done]
  · obtain ⟨count, read, _⟩ := (invOf (ops.take k)).showStatAttr
    rw [XstatNode.getElem?_applyAll here, XstatNode.apply, read]
    exact ⟨_, rfl⟩
  · obtain ⟨count, read, _⟩ := inv.showStatAttr
    refine ⟨_, _, read, ?_, rfl⟩
    rw [XstatNode.pending_taken, List.take_append_drop]
  · show (match node.showLastAttr with
      | some text => (node, NodeOut.last text)
      | none => (node, NodeOut.fault)).1 = node
    split <;> rfl
  · intro newest last
    have rolled : rolledSamples outs ≠ [] := by
      intro none
      rw [none] at last
      cases last
    rw [XstatNode.showLastAttr, XstatNode.printBuffer_eq (inv.ready rolled) (by decide)]
    exact congrArg (fun sample => some (recordLine sample)) (inv.newest newest last)

/-! ### A ring that has wrapped -/

/-- Rolls alone, on a node whose entries are set: each takes a sample, `buffer_next` goes on and
`buffer_size` grows to 256. -/
theorem applyAll_rolls {node : XstatNode} (initialised : node.Initialised)
    (size : node.bufferSize ≤ xstatNbuf) (passes : List (Fin xstatNcnt → Input)) :
    ∃ samples : List Record, samples.map Record.ts = passes.map (fun inputs => (inputs 0).now) ∧
      (node.applyAll (passes.map .rollBuffer)).2 = samples.map .rolled ∧
      (node.applyAll (passes.map .rollBuffer)).1.bufferNext % xstatNbuf =
        (node.bufferNext + passes.length) % xstatNbuf ∧
      (node.applyAll (passes.map .rollBuffer)).1.bufferSize =
        min xstatNbuf (node.bufferSize + passes.length) := by
  induction passes generalizing node with
  | nil => exact ⟨[], rfl, rfl, rfl, (Nat.min_eq_right size).symm⟩
  | cons inputs rest ih =>
    obtain ⟨node', done⟩ := Option.isSome_iff_exists.mp (XstatNode.isSome_rollBuffer inputs initialised)
    have applied : node.apply (.rollBuffer inputs) = (node', .rolled node'.workingBuf) := by
      rw [XstatNode.apply, done]
    have later : node'.Initialised := by
      have kept := XstatNode.initialised_apply initialised (.rollBuffer inputs)
      rwa [applied] at kept
    obtain ⟨pushed, _⟩ := XstatNode.rollBuffer_spec done
    have next : node'.bufferNext = (node.bufferNext + 1) % xstatNbuf := congrArg Buffer.next pushed
    have grown : node'.bufferSize =
        if node.bufferSize < xstatNbuf then node.bufferSize + 1 else node.bufferSize :=
      congrArg Buffer.size pushed
    have within : node'.bufferSize ≤ xstatNbuf := by
      rw [grown]
      split <;> omega
    obtain ⟨samples, times, outs, index, full⟩ := ih later within
    refine ⟨node'.workingBuf :: samples, ?_, ?_, ?_, ?_⟩
    · rw [List.map_cons, List.map_cons, times]
      exact congrArg (· :: _) (XstatNode.rollBuffer_now done)
    · simp only [List.map_cons, XstatNode.applyAll, applied, outs]
    · simp only [List.map_cons, XstatNode.applyAll, applied]
      refine index.trans ?_
      rw [next, Nat.mod_add_mod, List.length_cons, Nat.add_assoc, Nat.add_comm 1]
    · simp only [List.map_cons, XstatNode.applyAll, applied]
      refine full.trans ?_
      rw [grown, List.length_cons]
      split <;> omega

/-- A node's first operations: `init_counters`, then a pass of the sampler at each of these times. -/
def sampledAt (times : List Word) : List NodeOp :=
  .initCounters (fun _ => 0) :: times.map fun now => .rollBuffer fun _ => { (default : Input) with now }

/-- What these operations leave, whatever the times. -/
theorem applyAll_sampledAt (nid : Nat) (times : List Word) :
    (rolledSamples ((registerXstatNode nid).applyAll (sampledAt times)).2).map Record.ts = times ∧
      ((registerXstatNode nid).applyAll (sampledAt times)).1.bufferNext % xstatNbuf =
        times.length % xstatNbuf ∧
      ((registerXstatNode nid).applyAll (sampledAt times)).1.bufferSize = min xstatNbuf times.length := by
  have set := XstatNode.initialised_initCounters (registerXstatNode nid) fun _ => 0
  have ring := XstatNode.ring_initCounters (registerXstatNode nid) fun _ => 0
  have empty : ((registerXstatNode nid).initCounters fun _ => 0).bufferSize = 0 :=
    congrArg Buffer.size ring
  have start : ((registerXstatNode nid).initCounters fun _ => 0).bufferNext = 0 :=
    congrArg Buffer.next ring
  obtain ⟨samples, taken, outs, index, size⟩ := applyAll_rolls set (empty ▸ Nat.zero_le _)
    (times.map fun now _ => { (default : Input) with now })
  rw [List.map_map] at taken outs index size
  rw [start, Nat.zero_add, List.length_map] at index
  rw [empty, Nat.zero_add, List.length_map] at size
  have rolled : rolledSamples ((registerXstatNode nid).applyAll (sampledAt times)).2 = samples := by
    show rolledSamples (NodeOut.done :: _) = samples
    refine (congrArg (fun outs => rolledSamples (NodeOut.done :: outs)) outs).trans ?_
    simp [rolledSamples, List.flatMap_map]
  refine ⟨?_, index, size⟩
  rw [rolled, taken]
  exact List.map_id times

/-- Three hundred samples, taken at the times 0 to 299: the ring has wrapped and is full, its base
and the index to write next are both 44, it holds the samples 44 to 299 in order, and a stat read
takes what it prints from its front. -/
theorem ring_refines_fifo_wrapped :
    ∃ node outs,
      (registerXstatNode 0).applyAll (sampledAt ((List.range 300).map (BitVec.ofNat 64))) = (node, outs) ∧
      (node.bufferBase = 44 ∧ node.bufferNext = 44 ∧ node.bufferSize = 256) ∧
      (∀ k < 256, (node.buffer ((44 + k) % 256)).ts = BitVec.ofNat 64 (44 + k)) ∧
      ∃ node' read, node.showStatAttr = (node', some read) ∧
        node.pending = read.records ++ node'.pending := by
  have many : ((List.range 300).map (BitVec.ofNat 64)).length = 300 := by
    rw [List.length_map, List.length_range]
  have entries : ∀ k < 300, ((List.range 300).map (BitVec.ofNat 64))[k]? = some (BitVec.ofNat 64 k) := by
    intro k below
    rw [List.getElem?_map, List.getElem?_range below]
    rfl
  generalize (List.range 300).map (BitVec.ofNat 64) = list at many entries ⊢
  obtain ⟨times, index, full⟩ := applyAll_sampledAt 0 list
  have refines := ring_refines_fifo 0 (sampledAt list)
  generalize ran : (registerXstatNode 0).applyAll (sampledAt list) = left at *
  obtain ⟨node, outs⟩ := left
  obtain ⟨⟨baseLt, nextLt, _, next⟩, ⟨held, slots⟩, ⟨accepted, _⟩, _, ⟨node', read, taken, front, _⟩, _⟩ :=
    refines
  generalize fifoRun _ _ = fifo at held slots accepted
  rw [many] at index full
  have size : node.bufferSize = 256 := full
  have at44 : node.bufferNext = 44 := (Nat.mod_eq_of_lt nextLt).symm.trans index
  have base : node.bufferBase = 44 := by
    have wrapped : node.bufferNext = (node.bufferBase + 256) % 256 := size ▸ next
    rw [Nat.add_mod_right, Nat.mod_eq_of_lt baseLt] at wrapped
    exact wrapped.symm.trans at44
  have inside : fifo.pending.length = 256 := held.symm.trans size
  -- the pending samples are the last 256 of those offered
  have last : fifo.pending.map Record.ts = list.drop 44 := by
    have all := congrArg List.length times
    rw [List.length_map, ← accepted, many] at all
    have suffix := List.suffix_iff_eq_drop.mp fifo.pending_suffix
    rw [inside, all] at suffix
    rw [suffix, List.map_drop, accepted, times]
  refine ⟨node, outs, rfl, ⟨base, at44, size⟩, fun k below => ?_, node', read, taken, front⟩
  have there : k < fifo.pending.length := inside ▸ below
  have slot : node.buffer ((44 + k) % 256) = fifo.pending[k] := base ▸ slots k there
  have time : (fifo.pending.map Record.ts)[k]? = some (BitVec.ofNat 64 (44 + k)) := by
    rw [last, List.getElem?_drop]
    exact entries (44 + k) (by omega)
  rw [List.getElem?_map, List.getElem?_eq_getElem there] at time
  rw [slot]
  exact Option.some.inj time

end Xstats.Xstat
