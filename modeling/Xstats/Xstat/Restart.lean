/-
**Taking a sample** (`base_cnt.c`, `hpc_cnt.c`, `msr_cnt.c`, `ipmi_cnt.c`, and `roll_buffer`).

Every iteration of the loop in `roll_buffer` calls one counter's `restart`, which may write to the
entries of `ctxs`, and stores the word it returns. `Input` holds what such a call finds outside the
node: the clock, the registers, the sensors, and the sum that `perf_restart` forms from the kernel's
events, whose floating point is not modelled here.

* `restartCounter_spec`: a call touches one word of the working buffer and no entry that
  `init_counters` sets, and it needs its counter's entry to be set.
* `rollBuffer_spec`: so does a whole pass, which then writes the working buffer to the ring.
-/

import Xstats.Xstat.Node

namespace Xstats.Xstat

open RingBuffer

/-- What a step of a sampler finds outside the node: what `get_time` and `kzalloc` return to it, and what
a call through a `restart` pointer reads. -/
structure Input where
  /-- `get_time()`. -/
  now : Word
  /-- The sum over the events of a perf context. -/
  total : Word
  thermStatus : Word
  temperatureTarget : Word
  energyStatus : Word
  raplPowerUnit : Word
  perfLimitReasons : Word
  /-- `sensor_reading` of each sensor of a group, when the loop reaches it. -/
  readings : Nat → Byte
  /-- `kzalloc` does not fail. -/
  kzalloc : Bool

instance : Inhabited Input := ⟨⟨0, 0, 0, 0, 0, 0, 0, fun _ => 0, true⟩⟩

/-- The entries of a node's `ctxs`. -/
abbrev Ctxs := Fin xstatNcnt → Slot

/-! ### The counters -/

/-- `ts_restart`: the entry itself gets the previous timestamp, the next entry the new one. -/
def tsRestart (ctxs : Ctxs) (i : Fin xstatNcnt) (last now : Word) : Ctxs × Word :=
  (Function.update (Function.update ctxs i (.word last)) (i + 1) (.word now), now)

/-- `intv_restart`, which reads its own entry and the one before it. -/
def intvRestart (ctxs : Ctxs) (i : Fin xstatNcnt) : Word :=
  let now := (ctxs i).value
  let prev := (ctxs (i - 1)).value
  now - prev

/-- `temp_restart`. The arithmetic is in `int`, which is widened with its sign at the end. -/
def tempRestart (status target : Word) : Word :=
  let tjmax := ((target >>> 16) &&& 0xff).setWidth 32
  let max := ((target >>> 8) &&& 0xff).setWidth 32
  let tpkg := ((status >>> 16) &&& 0x7f).setWidth 32
  let max := tjmax - max
  let tpkg := tjmax - tpkg
  ((tjmax <<< 24) ||| (max <<< 16) ||| tpkg : BitVec 32).signExtend 64

/-- `energy_restart`. It keeps the reading as it was before the mask. -/
def energyRestart (ctxs : Ctxs) (i : Fin xstatNcnt) (reading : Word) : Ctxs × Word :=
  let laste := (ctxs i).value
  let eread := reading &&& 0xffffffff
  let eread := if eread < laste then eread + 0x100000000 else eread
  (Function.update ctxs i (.word reading), eread - laste)

/-- `eunit_restart`. -/
def eunitRestart (units : Word) : Word := (units >>> 8) &&& 0x1f

/-- A call through the `restart` pointer with `&node->ctxs[i]`: the entries it leaves and the word
it returns. The perf counters and the IPMI counters follow their entry. -/
def callRestart (ctxs : Ctxs) (i : Fin xstatNcnt) (last : Word) (input : Input) :
    CounterRestart → Option (Ctxs × Word)
  | .tsRestart => some (tsRestart ctxs i last input.now)
  | .intvRestart => some (ctxs, intvRestart ctxs i)
  | .perfRestart =>
    match ctxs i with
    | .perf _ => some (ctxs, input.total)
    | _ => none
  | .tempRestart => some (ctxs, tempRestart input.thermStatus input.temperatureTarget)
  | .energyRestart => some (energyRestart ctxs i input.energyStatus)
  | .eunitRestart => some (ctxs, eunitRestart input.raplPowerUnit)
  | .perflmtRestart => some (ctxs, input.perfLimitReasons)
  | .xstatIpmiRestart =>
    match ctxs i with
    | .ipmi group => some (ctxs, xstatIpmiRestart (xstatIpmiCtx group) input.readings)
    | _ => none

/-- An entry that `init_counters` sets is none that a `restart` writes. -/
theorem callRestart_frame {ctxs ctxs' : Ctxs} {i j : Fin xstatNcnt} {last word : Word}
    {input : Input}
    (called : callRestart ctxs i last input (nodeCounters i).restart = some (ctxs', word))
    (set : (nodeCounters j).init.isSome) : ctxs' j = ctxs j := by
  have tsApart : ∀ i j, (nodeCounters i).restart = .tsRestart → (nodeCounters j).init.isSome →
      j ≠ i ∧ j ≠ i + 1 := by decide
  have energyApart : ∀ i j, (nodeCounters i).restart = .energyRestart →
      (nodeCounters j).init.isSome → j ≠ i := by decide
  cases restart : (nodeCounters i).restart with
  | tsRestart =>
    obtain ⟨own, next⟩ := tsApart i j restart set
    simp only [restart, callRestart, tsRestart, Option.some.injEq, Prod.mk.injEq] at called
    rw [← called.1, Function.update_of_ne next, Function.update_of_ne own]
  | energyRestart =>
    simp only [restart, callRestart, energyRestart, Option.some.injEq, Prod.mk.injEq] at called
    rw [← called.1, Function.update_of_ne (energyApart i j restart set)]
  | perfRestart =>
    simp only [restart, callRestart] at called
    split at called
    · cases called
      rfl
    · cases called
  | xstatIpmiRestart =>
    simp only [restart, callRestart] at called
    split at called
    · cases called
      rfl
    · cases called
  | intvRestart | tempRestart | eunitRestart | perflmtRestart =>
    simp only [restart, callRestart, Option.some.injEq, Prod.mk.injEq] at called
    rw [called.1]

namespace XstatNode

/-! ### `roll_buffer` -/

/-- One iteration of the loop in `roll_buffer`. -/
def restartCounter (node : XstatNode) (i : Fin xstatNcnt) (input : Input) : Option XstatNode := do
  let (ctxs, word) ← callRestart node.ctxs i (node.workingBuf i) input (nodeCounters i).restart
  return { node with ctxs := ctxs, workingBuf := Function.update node.workingBuf i word }

/-- `roll_buffer`, given what each of its iterations reads. -/
def rollBuffer (node : XstatNode) (inputs : Fin xstatNcnt → Input) : Option XstatNode := do
  let node ← (List.finRange xstatNcnt).foldlM (fun node i => node.restartCounter i (inputs i)) node
  return node.commit

/-- The entry of counter `i` is one that its `restart` can follow. -/
def CanRestart (node : XstatNode) (i : Fin xstatNcnt) : Prop :=
  ((nodeCounters i).restart = .perfRestart → ∃ ctx, node.ctxs i = .perf ctx) ∧
  ((nodeCounters i).restart = .xstatIpmiRestart → ∃ group, node.ctxs i = .ipmi group)

/-- What one iteration leaves alone, and what it needs. -/
structure Restarted (node node' : XstatNode) (i : Fin xstatNcnt) : Prop where
  ring_eq : node'.ring = node.ring
  task_eq : node'.task = node.task
  id_eq : node'.id = node.id
  workingBuf_eq : ∀ j, j ≠ i → node'.workingBuf j = node.workingBuf j
  ctxs_eq : ∀ j, (nodeCounters j).init.isSome → node'.ctxs j = node.ctxs j
  followed : node.CanRestart i

theorem restartCounter_spec {node node' : XstatNode} {i : Fin xstatNcnt} {input : Input}
    (done : node.restartCounter i input = some node') : Restarted node node' i := by
  simp only [restartCounter, Option.bind_eq_bind, Option.bind_eq_some_iff, Option.pure_def,
    Option.some.injEq, Prod.exists] at done
  obtain ⟨ctxs, word, called, rfl⟩ := done
  refine ⟨rfl, rfl, rfl, fun j other => Function.update_of_ne other _ _,
    fun j set => callRestart_frame called set, fun restart => ?_, fun restart => ?_⟩
  · simp only [restart, callRestart] at called
    split at called
    · exact ⟨_, ‹_›⟩
    · cases called
  · simp only [restart, callRestart] at called
    split at called
    · exact ⟨_, ‹_›⟩
    · cases called

/-- The word of the timestamp after an iteration of `roll_buffer`. -/
theorem restartCounter_now {node node' : XstatNode} {i : Fin xstatNcnt} {input : Input}
    (done : node.restartCounter i input = some node') :
    node'.workingBuf 0 = if i = 0 then input.now else node.workingBuf 0 := by
  by_cases first : i = 0
  · subst first
    have restart : (nodeCounters 0).restart = .tsRestart := rfl
    simp only [restartCounter, restart, callRestart, tsRestart, Option.bind_eq_bind,
      Option.bind_some, Option.pure_def, Option.some.injEq] at done
    subst done
    rw [if_pos rfl]
    exact Function.update_self (0 : Fin xstatNcnt) input.now node.workingBuf
  · rw [if_neg first]
    exact (restartCounter_spec done).workingBuf_eq 0 (Ne.symm first)

/-- With its entry set, no iteration faults. -/
theorem isSome_restartCounter {node : XstatNode} {i : Fin xstatNcnt} (input : Input)
    (followed : node.CanRestart i) : (node.restartCounter i input).isSome := by
  obtain ⟨perf, ipmi⟩ := followed
  unfold restartCounter
  cases restart : (nodeCounters i).restart with
  | perfRestart =>
    obtain ⟨ctx, set⟩ := perf restart
    simp [callRestart, set]
  | xstatIpmiRestart =>
    obtain ⟨group, set⟩ := ipmi restart
    simp [callRestart, set]
  | tsRestart | intvRestart | tempRestart | energyRestart | eunitRestart | perflmtRestart =>
    simp [callRestart]

/-- Every entry that a `restart` follows has been set. -/
def Initialised (node : XstatNode) : Prop := ∀ i, node.CanRestart i

theorem initialised_initCounters (node : XstatNode) (allocated : Fin xstatNcnt → Nat) :
    (node.initCounters allocated).Initialised := by
  have perfSlot : ∀ i, (nodeCounters i).restart = .perfRestart →
      (nodeCounters i).init = some .perfInit := by decide
  have ipmiSlot : ∀ i, (nodeCounters i).restart = .xstatIpmiRestart →
      ∃ group, (nodeCounters i).data = .ipmi group := by decide
  intro i
  refine ⟨fun restart => ⟨allocated i, ?_⟩, fun restart => ?_⟩
  · simp only [ctxs_initCounters, initSlot, perfSlot i restart]
  · obtain ⟨group, data⟩ := ipmiSlot i restart
    exact ⟨group, ipmiReady_initCounters node allocated i group data⟩

theorem Restarted.initialised {node node' : XstatNode} {i : Fin xstatNcnt}
    (step : Restarted node node' i) (initialised : node.Initialised) : node'.Initialised := by
  have followed : ∀ j, (nodeCounters j).restart = .perfRestart ∨
      (nodeCounters j).restart = .xstatIpmiRestart → (nodeCounters j).init.isSome := by decide
  intro j
  refine ⟨fun restart => ?_, fun restart => ?_⟩
  · rw [step.ctxs_eq j (followed j (.inl restart))]
    exact (initialised j).1 restart
  · rw [step.ctxs_eq j (followed j (.inr restart))]
    exact (initialised j).2 restart

/-- What a pass over `counters` leaves alone, and what it needs. -/
theorem foldlM_restartCounter {inputs : Fin xstatNcnt → Input} {counters : List (Fin xstatNcnt)}
    {node node' : XstatNode}
    (done : counters.foldlM (fun node i => node.restartCounter i (inputs i)) node = some node') :
    node'.ring = node.ring ∧
      (∀ j, (nodeCounters j).init.isSome → node'.ctxs j = node.ctxs j) ∧
      ∀ i ∈ counters, node.CanRestart i := by
  have set : ∀ j, (nodeCounters j).restart = .perfRestart ∨
      (nodeCounters j).restart = .xstatIpmiRestart → (nodeCounters j).init.isSome := by decide
  induction counters generalizing node with
  | nil =>
    cases done
    exact ⟨rfl, fun _ _ => rfl, fun i member => by cases member⟩
  | cons i rest ih =>
    rw [List.foldlM_cons, Option.bind_eq_bind, Option.bind_eq_some_iff] at done
    obtain ⟨middle, first, later⟩ := done
    have step := restartCounter_spec first
    obtain ⟨ring, ctxs, followed⟩ := ih later
    refine ⟨ring.trans step.ring_eq, fun j init => (ctxs j init).trans (step.ctxs_eq j init), ?_⟩
    intro k member
    rcases List.mem_cons.mp member with rfl | inRest
    · exact step.followed
    · obtain ⟨perf, ipmi⟩ := followed k inRest
      refine ⟨fun restart => ?_, fun restart => ?_⟩
      · rw [← step.ctxs_eq k (set k (.inl restart))]
        exact perf restart
      · rw [← step.ctxs_eq k (set k (.inr restart))]
        exact ipmi restart

/-- **A pass of `roll_buffer`** pushes the working buffer it filled; it happens exactly on an
initialised node, whose set entries it keeps. -/
theorem rollBuffer_spec {node node' : XstatNode} {inputs : Fin xstatNcnt → Input}
    (done : node.rollBuffer inputs = some node') :
    node'.ring = node.ring.push xstatNbuf node'.workingBuf ∧
      (∀ j, (nodeCounters j).init.isSome → node'.ctxs j = node.ctxs j) ∧ node.Initialised := by
  simp only [rollBuffer, Option.bind_eq_bind, Option.bind_eq_some_iff, Option.pure_def,
    Option.some.injEq] at done
  obtain ⟨filled, loop, rfl⟩ := done
  obtain ⟨ring, ctxs, followed⟩ := foldlM_restartCounter loop
  refine ⟨?_, fun j set => ?_, fun i => followed i (List.mem_finRange i)⟩
  · rw [ring_commit, workingBuf_commit, ring]
  · rw [ctxs_commit, ctxs j set]

/-- On an initialised node a pass never faults. -/
theorem isSome_rollBuffer {node : XstatNode} (inputs : Fin xstatNcnt → Input)
    (initialised : node.Initialised) : (node.rollBuffer inputs).isSome := by
  have all : ∀ counters : List (Fin xstatNcnt), ∀ node : XstatNode, node.Initialised →
      (counters.foldlM (fun (node : XstatNode) i => node.restartCounter i (inputs i)) node).isSome := by
    intro counters
    induction counters with
    | nil => exact fun _ _ => rfl
    | cons i rest ih =>
      intro node initialised
      obtain ⟨middle, first⟩ := Option.isSome_iff_exists.mp
        (isSome_restartCounter (inputs i) (initialised i))
      rw [List.foldlM_cons, first]
      exact ih middle ((restartCounter_spec first).initialised initialised)
  obtain ⟨filled, loop⟩ := Option.isSome_iff_exists.mp (all (List.finRange xstatNcnt) node initialised)
  simp [rollBuffer, loop]

/-- The sample of a pass bears the time that its `ts_restart` got. -/
theorem rollBuffer_now {node node' : XstatNode} {inputs : Fin xstatNcnt → Input}
    (done : node.rollBuffer inputs = some node') : node'.workingBuf 0 = (inputs 0).now := by
  have all : ∀ (counters : List (Fin xstatNcnt)) (node node' : XstatNode),
      counters.foldlM (fun (node : XstatNode) i => node.restartCounter i (inputs i)) node = some node' →
      node'.workingBuf 0 = if 0 ∈ counters then (inputs 0).now else node.workingBuf 0 := by
    intro counters
    induction counters with
    | nil =>
      rintro node _ ⟨⟩
      rfl
    | cons i rest ih =>
      intro node node' done
      rw [List.foldlM_cons, Option.bind_eq_bind, Option.bind_eq_some_iff] at done
      obtain ⟨middle, first, later⟩ := done
      rw [ih middle node' later, restartCounter_now first]
      by_cases inRest : 0 ∈ rest
      · simp [inRest]
      · by_cases here : i = 0
        · subst here
          simp [inRest]
        · simp [inRest, here, Ne.symm here]
  simp only [rollBuffer, Option.bind_eq_bind, Option.bind_eq_some_iff, Option.pure_def,
    Option.some.injEq] at done
  obtain ⟨filled, loop, rfl⟩ := done
  rw [workingBuf_commit, all _ node filled loop, if_pos (List.mem_finRange 0)]

end XstatNode

end Xstats.Xstat
