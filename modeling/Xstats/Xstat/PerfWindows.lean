/-
**The windows of the perf counters.**

A perf counter counts from what its event showed last, which its context keeps; and the context lives
as long as the sampler. When sampling is switched off and on again a new context counts from its own
creation, while the interval of the first sample, and its energy, reach back to the last sample before.

* `ContextOk.restart`: what a call of `perf_restart` returns, and from when its context counts then.
* `WindowInv.step`: every result covers the time since the call before it, exactly if what it misses of
  that time was eventless.
-/

import Xstats.Xstat.PerfModule
import Xstats.Xstat.Timestamps

namespace Xstats.Xstat

open Transition ModuleState PerfCounterContext

variable {m : Machine} {ρ : Rounding}

/-! ### A context and its readings -/

/-- The entry of a CPU whose event, if there is one, was read last at the instant `base`. -/
def entryOf (m : Machine) (i : Fin xstatNcnt) (ctx : Nat) (born : Fin m.nrCpuIds → Option Word)
    (base : Fin m.nrCpuIds → Word) (cpu : Fin m.nrCpuIds) :
    PerfCounterPerCpu (KernelEvent m.nrCpuIds) :=
  match born cpu with
  | some b => ⟨m.hardware.read i cpu b (base cpu), some ⟨ctx, cpu⟩⟩
  | none => ⟨.zero, none⟩

/-- What the event of a CPU, if there is one, counted from one instant to another. -/
def counted (m : Machine) (i : Fin xstatNcnt) (born : Fin m.nrCpuIds → Option Word)
    (base instant : Fin m.nrCpuIds → Word) (cpu : Fin m.nrCpuIds) : Nat :=
  match born cpu with
  | some _ => m.hardware.between i cpu (base cpu) (instant cpu)
  | none => 0

/-- `perf_init` leaves entries that count from the creation of the events. -/
theorem events_perfInit_eq (a : PerfAction m.nrCpuIds) (nid ctx : Nat) (i : Fin xstatNcnt) :
    (perfInit (fun _ => KernelEvent.create ctx a.creates) (m.mask nid) (perfConfig i)).events =
      (m.mask nid).cpus.map (entryOf m i ctx (PerfState.bornIn a nid) a.instant) := by
  rw [events_perfInit]
  refine List.map_congr_left fun cpu member => ?_
  have inside := CpuMask.mem_cpus.mp member
  cases created : a.creates cpu with
  | true =>
    simp [entryOf, PerfState.bornIn, KernelEvent.create, inside, created, Hardware.read_self]
  | false => simp [entryOf, PerfState.bornIn, KernelEvent.create, created]

section Readings

variable {s : PerfState m.nrCpuIds} {a : PerfAction m.nrCpuIds} {nid ctx : Nat} {i : Fin xstatNcnt}
  {base : Fin m.nrCpuIds → Word}

/-- The body of the loop in `perf_restart`, on the entry of a CPU. -/
theorem restartEntry_entryOf {cpu : Fin m.nrCpuIds} {instant : Fin m.nrCpuIds → Word}
    (ordered : ∀ b, s.born ctx cpu = some b → b ≤ base cpu ∧ base cpu ≤ instant cpu)
    (small : ∀ b, s.born ctx cpu = some b →
      m.hardware.between i cpu (base cpu) (instant cpu) ≤ PerfEventValue.perfOverflowThreshold) :
    restartEntry ρ (s.readEvent i instant) (entryOf m i ctx (s.born ctx) base cpu) =
      (entryOf m i ctx (s.born ctx) instant cpu,
        BitVec.ofNat 64 (counted m i (s.born ctx) base instant cpu)) := by
  cases born : s.born ctx cpu with
  | none => simp [restartEntry, entryOf, counted, born]
  | some b =>
    obtain ⟨created, later⟩ := ordered b born
    simp only [restartEntry, entryOf, counted, PerfState.readEvent, born]
    rw [m.hardware.scaled_read ρ created later (small b born)]

/-- **A call of `perf_restart`** returns what the events counted since they were read last, and reads
them. -/
theorem perfRestart_entryOf (ρ : Rounding) (config : PerfEventConfig)
    {instant : Fin m.nrCpuIds → Word} {last : Word}
    (ordered : ∀ cpu b, s.born ctx cpu = some b → b ≤ base cpu ∧ base cpu ≤ instant cpu)
    (small : ∀ cpu ∈ m.mask nid, ∀ b, s.born ctx cpu = some b →
      m.hardware.between i cpu (base cpu) (instant cpu) ≤ PerfEventValue.perfOverflowThreshold)
    (until_last : ∀ cpu, instant cpu ≤ last) :
    (perfRestart ρ (s.readEvent i instant)
        ⟨config, (m.mask nid).cpus.map (entryOf m i ctx (s.born ctx) base)⟩).1 =
      ⟨config, (m.mask nid).cpus.map (entryOf m i ctx (s.born ctx) instant)⟩ ∧
    (perfRestart ρ (s.readEvent i instant)
        ⟨config, (m.mask nid).cpus.map (entryOf m i ctx (s.born ctx) base)⟩).2.toNat =
      ∑ cpu ∈ m.mask nid, counted m i (s.born ctx) base instant cpu := by
  have entries : ∀ cpu ∈ (m.mask nid).cpus,
      restartEntry ρ (s.readEvent i instant) (entryOf m i ctx (s.born ctx) base cpu) = _ :=
    fun cpu member => restartEntry_entryOf (ordered cpu) (small cpu (CpuMask.mem_cpus.mp member))
  have total : ((m.mask nid).cpus.map (counted m i (s.born ctx) base instant)).sum =
      ∑ cpu ∈ m.mask nid, counted m i (s.born ctx) base instant cpu := by
    rw [← List.sum_toFinset _ (CpuMask.nodup_cpus _), CpuMask.toFinset_cpus]
  have bound : ∑ cpu ∈ m.mask nid, counted m i (s.born ctx) base instant cpu < 2 ^ 64 := by
    refine (Finset.sum_le_sum fun cpu _ => ?_).trans_lt
      (m.hardware.sum_between_lt i (m.mask nid) base until_last)
    unfold counted
    split
    · exact le_rfl
    · exact Nat.zero_le _
  constructor
  · simp only [perfRestart, List.map_map, PerfCounterContext.mk.injEq, true_and]
    exact List.map_congr_left fun cpu member => congrArg Prod.fst (entries cpu member)
  · have words : (perfRestart ρ (s.readEvent i instant)
        ⟨config, (m.mask nid).cpus.map (entryOf m i ctx (s.born ctx) base)⟩).2 =
        ((m.mask nid).cpus.map fun cpu =>
          BitVec.ofNat 64 (counted m i (s.born ctx) base instant cpu)).sum := by
      simp only [perfRestart, List.map_map]
      exact congrArg List.sum
        (List.map_congr_left fun cpu member => congrArg Prod.snd (entries cpu member))
    rw [words, toNat_sum_ofNat _ _ (total ▸ bound), total]

end Readings

/-! ### What a result covers -/

/-- The result is the number of events between the instants at which the two calls read the CPUs. -/
def Exact (m : Machine) (nid : Nat) (i : Fin xstatNcnt) (prev this : PerfCall m.nrCpuIds) : Prop :=
  this.result.toNat =
    ∑ cpu ∈ m.mask nid, m.hardware.between i cpu (prev.instant cpu) (this.instant cpu)

instance (nid : Nat) (i : Fin xstatNcnt) (prev this : PerfCall m.nrCpuIds) :
    Decidable (Exact m nid i prev this) := inferInstanceAs (Decidable (_ = _))

/-- No event is missed: on every CPU the counter's event is there and was read by the call before, or
was created before anything happened since; or nothing happened at all between the calls. -/
def Covered (m : Machine) (nid : Nat) (i : Fin xstatNcnt) (prev this : PerfCall m.nrCpuIds) : Prop :=
  ∀ cpu ∈ m.mask nid,
    (∃ b, this.born cpu = some b ∧
      (this.ctx = prev.ctx ∨ m.hardware.between i cpu (prev.instant cpu) b = 0)) ∨
    m.hardware.between i cpu (prev.instant cpu) (this.instant cpu) = 0

/-- From when a context counts, where `last` is the last call for its node and counter. -/
def CountsFrom (last : Option (PerfCall m.nrCpuIds)) (ctx : Nat) (born : Fin m.nrCpuIds → Option Word)
    (base : Fin m.nrCpuIds → Word) : Prop :=
  ∀ call ∈ last, (call.ctx = ctx ∧ base = call.instant) ∨
    (call.ctx ≠ ctx ∧ ∀ cpu b, born cpu = some b → base cpu = b ∧ call.instant cpu ≤ b)

/-- **One result**: it is exact exactly if nothing is missed. -/
theorem exact_iff_covered {nid : Nat} {i : Fin xstatNcnt} {prev this : PerfCall m.nrCpuIds}
    {base : Fin m.nrCpuIds → Word}
    (result : this.result.toNat = ∑ cpu ∈ m.mask nid, counted m i this.born base this.instant cpu)
    (ordered : ∀ cpu b, this.born cpu = some b → b ≤ base cpu ∧ base cpu ≤ this.instant cpu)
    (since : CountsFrom (some prev) this.ctx this.born base) :
    Exact m nid i prev this ↔ Covered m nid i prev this := by
  have each : ∀ cpu, counted m i this.born base this.instant cpu ≤
      m.hardware.between i cpu (prev.instant cpu) (this.instant cpu) ∧
      (counted m i this.born base this.instant cpu =
          m.hardware.between i cpu (prev.instant cpu) (this.instant cpu) ↔
        (∃ b, this.born cpu = some b ∧
          (this.ctx = prev.ctx ∨ m.hardware.between i cpu (prev.instant cpu) b = 0)) ∨
        m.hardware.between i cpu (prev.instant cpu) (this.instant cpu) = 0) := by
    intro cpu
    cases born : this.born cpu with
    | none =>
      simp only [counted, born, Nat.zero_le, true_and]
      simp [eq_comm]
    | some b =>
      obtain ⟨created, later⟩ := ordered cpu b born
      simp only [counted, born, Option.some.injEq, exists_eq_left']
      rcases since prev rfl with ⟨same, rfl⟩ | ⟨other, fresh⟩
      · simp [same]
      · obtain ⟨start, before⟩ := fresh cpu b born
        rw [start] at later ⊢
        have sum := m.hardware.between_add i cpu before later
        have apart : this.ctx ≠ prev.ctx := Ne.symm other
        simp only [apart, false_or]
        omega
  rw [Exact, result, Finset.sum_eq_sum_iff_of_le fun cpu _ => (each cpu).1]
  exact forall₂_congr fun cpu _ => (each cpu).2

/-! ### The invariant -/

/-- A context that its node holds, with the instants at which its events were read last. -/
structure ContextOk (s : PerfState m.nrCpuIds) (nid : Nat) (i : Fin xstatNcnt) (ctx : Nat)
    (config : PerfEventConfig) (base : Fin m.nrCpuIds → Word) : Prop where
  there : s.contexts ctx =
    some ⟨config, (m.mask nid).cpus.map (entryOf m i ctx (s.born ctx) base)⟩
  ordered : ∀ cpu b, s.born ctx cpu = some b → b ≤ base cpu ∧ base cpu ≤ s.clock
  since : CountsFrom (s.calls nid i).getLast? ctx (s.born ctx) base

/-- The contexts that are held, the calls so far, and each two calls that follow each other. -/
structure WindowInv (s : PerfState m.nrCpuIds) : Prop where
  held : ∀ nid i ctx, s.module.Held nid i ctx → ∃ config base, ContextOk s nid i ctx config base
  past : ∀ nid i, ∀ call ∈ s.calls nid i,
    call.ctx < s.module.nextCtx ∧ ∀ cpu, call.instant cpu ≤ s.clock
  chain : ∀ nid i, (s.calls nid i).IsChain fun prev this =>
    (Exact m nid i prev this ↔ Covered m nid i prev this)

theorem windowInv_start : WindowInv (PerfState.start m) where
  held := fun nid i ctx held => by
    obtain ⟨tid, ⟨th, thread, _⟩, _⟩ := held
    cases thread
  past := fun _ _ _ member => by cases member
  chain := fun _ _ => .nil

/-! ### The step lemma -/

section Steps

variable {s s' : PerfState m.nrCpuIds} {a : PerfAction m.nrCpuIds}

/-- A step that leaves a context alone, and the calls of its counter. -/
theorem ContextOk.later {nid : Nat} {i : Fin xstatNcnt} {ctx : Nat} {config : PerfEventConfig}
    {base : Fin m.nrCpuIds → Word} (ok : ContextOk s nid i ctx config base)
    (contexts : s'.contexts ctx = s.contexts ctx) (born : s'.born ctx = s.born ctx)
    (calls : s'.calls nid i = s.calls nid i) (clock : s.clock ≤ s'.clock) :
    ContextOk s' nid i ctx config base where
  there := by rw [contexts, born, ok.there]
  ordered := fun cpu b created => by
    rw [born] at created
    obtain ⟨low, high⟩ := ok.ordered cpu b created
    exact ⟨low, BitVec.le_trans high clock⟩
  since := by rw [calls, born]; exact ok.since

theorem Held.ctx_eq {s : ModuleState} {nid : Nat} {i : Fin xstatNcnt} {ctx ctx' : Nat}
    (held : s.Held nid i ctx) (held' : s.Held nid i ctx') : ctx = ctx' := by
  obtain ⟨_, _, entry⟩ := held
  obtain ⟨_, _, entry'⟩ := held'
  rw [entry] at entry'
  cases entry'
  rfl

/-- The calls so far stay in the past. -/
theorem WindowInv.past_later (inv : WindowInv s) {module : ModuleState}
    (next : s.module.nextCtx ≤ module.nextCtx) {now : Word} (clock : s.clock ≤ now) :
    ∀ nid i, ∀ call ∈ s.calls nid i, call.ctx < module.nextCtx ∧ ∀ cpu, call.instant cpu ≤ now := by
  intro nid i call member
  obtain ⟨old, read⟩ := inv.past nid i call member
  exact ⟨old.trans_le next, fun cpu => BitVec.le_trans (read cpu) clock⟩

theorem WindowInv.init (inv : WindowInv s) (ctxs : CtxInv s.module) (timely : PerfState.Timely s a)
    {module : ModuleState} {nid : Nat} {i : Fin xstatNcnt}
    (effect : PerfEffect s.module module (some (.init nid i))) :
    WindowInv { s with
      module, clock := a.now
      contexts := Function.update s.contexts s.module.nextCtx
        (some (perfInit (fun _ => KernelEvent.create s.module.nextCtx a.creates) (m.mask nid)
          (perfConfig i)))
      born := Function.update s.born s.module.nextCtx (PerfState.bornIn a nid) } := by
  cases effect with
  | init _ _ next held =>
    refine ⟨fun n j c here => ?_, inv.past_later (next ▸ Nat.le_succ _) timely.1, inv.chain⟩
    rcases held n j c here with old | ⟨rfl, rfl, rfl⟩
    · obtain ⟨config, base, ok⟩ := inv.held n j c old
      have apart : c ≠ s.module.nextCtx := (Held.lt ctxs old).ne
      exact ⟨config, base, ok.later (Function.update_of_ne apart ..) (Function.update_of_ne apart ..) rfl
        timely.1⟩
    · refine ⟨perfConfig j, a.instant, ?_, fun cpu b created => ?_, fun call member => .inr ⟨?_, ?_⟩⟩
      · show Function.update s.contexts _ _ _ = _
        simp only [Function.update_self, Option.some.injEq]
        rw [← events_perfInit_eq]
        rfl
      · simp only [Function.update_self, PerfState.bornIn, Option.ite_none_right_eq_some,
          Option.some.injEq] at created
        exact ⟨created.2 ▸ BitVec.le_refl _, (timely.2 cpu).2⟩
      · exact (inv.past n j call (List.mem_of_getLast? member)).1.ne
      · intro cpu b created
        simp only [Function.update_self, PerfState.bornIn, Option.ite_none_right_eq_some,
          Option.some.injEq] at created
        have read := (inv.past n j call (List.mem_of_getLast? member)).2 cpu
        exact ⟨created.2, created.2 ▸ BitVec.le_trans read (timely.2 cpu).1⟩

/-- The increments that the step reads are those of the events between the readings. -/
theorem small_of_increments {nid ctx : Nat} {i : Fin xstatNcnt} {config : PerfEventConfig}
    {base : Fin m.nrCpuIds → Word} (timely : PerfState.Timely s a)
    (ok : ContextOk s nid i ctx config base)
    (work : s.module.perfWork a.action = some (.restart nid i ctx))
    (small : ∀ n ∈ s.increments a, n < PerfEventValue.perfOverflowThreshold) :
    ∀ cpu ∈ m.mask nid, ∀ b, s.born ctx cpu = some b →
      m.hardware.between i cpu (base cpu) (a.instant cpu) ≤ PerfEventValue.perfOverflowThreshold := by
  intro cpu inside b born
  obtain ⟨created, read⟩ := ok.ordered cpu b born
  have later := BitVec.le_trans read (timely.2 cpu).1
  rw [← m.hardware.total_sub_read i cpu created later]
  refine (small _ ?_).le
  simp only [PerfState.increments, work, ok.there, Option.map_some, Option.getD_some, List.mem_filterMap,
    List.mem_map]
  refine ⟨entryOf m i ctx (s.born ctx) base cpu, ⟨cpu, CpuMask.mem_cpus.mpr inside, rfl⟩, ?_⟩
  simp only [entryOf, born, Option.map_some, PerfState.readEvent]

theorem WindowInv.restart (inv : WindowInv s) (ctxs : CtxInv s.module) (timely : PerfState.Timely s a)
    {module : ModuleState} {nid ctx : Nat} {i : Fin xstatNcnt}
    {context : PerfCounterContext (KernelEvent m.nrCpuIds)}
    (effect : PerfEffect s.module module (some (.restart nid i ctx)))
    (work : s.module.perfWork a.action = some (.restart nid i ctx))
    (there : s.contexts ctx = some context)
    (small : ∀ n ∈ s.increments a, n < PerfEventValue.perfOverflowThreshold) :
    WindowInv { s with
      module, clock := a.now
      contexts := Function.update s.contexts ctx
        (some (context.perfRestart ρ (s.readEvent i a.instant)).1)
      calls := Function.update s.calls nid (Function.update (s.calls nid) i (s.calls nid i ++
        [⟨ctx, s.born ctx, a.instant, (context.perfRestart ρ (s.readEvent i a.instant)).2⟩])) } := by
  cases effect with
  | restart _ _ _ next own held =>
    obtain ⟨config, base, ok⟩ := inv.held nid i ctx own
    have ordered : ∀ cpu b, s.born ctx cpu = some b → b ≤ base cpu ∧ base cpu ≤ a.instant cpu := by
      intro cpu b created
      obtain ⟨low, high⟩ := ok.ordered cpu b created
      exact ⟨low, BitVec.le_trans high (timely.2 cpu).1⟩
    obtain ⟨left, result⟩ := perfRestart_entryOf ρ config ordered
      (small_of_increments timely ok work small) fun cpu => (timely.2 cpu).2
    rw [ok.there, Option.some.injEq] at there
    subst there
    rw [left]
    set call : PerfCall m.nrCpuIds := ⟨ctx, s.born ctx, a.instant,
      (perfRestart ρ (s.readEvent i a.instant)
      ⟨config, (m.mask nid).cpus.map (entryOf m i ctx (s.born ctx) base)⟩).2⟩
    have calls := update_calls s.calls nid i (s.calls nid i ++ [call])
    refine ⟨fun n j c here => ?_, fun n j old member => ?_, fun n j => ?_⟩
    · by_cases same : c = ctx
      · subst same
        obtain ⟨rfl, rfl⟩ := Held.unique ctxs (held n j c here) own
        refine ⟨config, a.instant, Function.update_self .., fun cpu b created => ?_, ?_⟩
        · obtain ⟨low, high⟩ := ordered cpu b created
          exact ⟨BitVec.le_trans low high, (timely.2 cpu).2⟩
        · show CountsFrom (Function.update s.calls _ _ _ _).getLast? _ _ _
          rw [calls, if_pos ⟨rfl, rfl⟩, List.getLast?_append]
          rintro _ ⟨⟩
          exact .inl ⟨rfl, rfl⟩
      · obtain ⟨config, base, ok⟩ := inv.held n j c (held n j c here)
        have apart : ¬(n = nid ∧ j = i) := by
          rintro ⟨rfl, rfl⟩
          exact same (Held.ctx_eq (held n j c here) own)
        exact ⟨config, base, ok.later (Function.update_of_ne same ..) rfl
          ((calls n j).trans (if_neg apart)) timely.1⟩
    · change old ∈ Function.update s.calls _ _ _ _ at member
      rw [calls] at member
      split at member
      · rcases List.mem_append.mp member with earlier | new
        · exact inv.past_later next.ge timely.1 nid i old earlier
        · rw [List.mem_singleton.mp new]
          exact ⟨next ▸ Held.lt ctxs own, fun cpu => (timely.2 cpu).2⟩
      · exact inv.past_later next.ge timely.1 n j old member
    · show (Function.update s.calls _ _ _ _).IsChain _
      rw [calls]
      split
      · next both =>
        obtain ⟨rfl, rfl⟩ := both
        refine List.isChain_append.mpr ⟨inv.chain n j, List.isChain_singleton _, ?_⟩
        intro prev last this first
        simp only [List.head?_cons, Option.mem_def, Option.some.injEq] at first
        subst first
        exact exact_iff_covered result ordered (last ▸ ok.since)
      · exact inv.chain n j

/-- **One step** keeps the invariant, where the increments it reads are below the threshold. -/
theorem WindowInv.step (inv : WindowInv s) (ctrl : CtrlInv m.maxNumnodes s.module)
    (ctxs : CtxInv s.module)
    (small : ∀ n ∈ s.increments a, n < PerfEventValue.perfOverflowThreshold)
    (taken : s.step ρ a = some s') : WindowInv s' := by
  obtain ⟨timely, move⟩ := PerfState.move_of_step ρ taken
  have effectOf : ∀ {total module}, s.module.step m.maxNumnodes (a.withTotal total) = some module →
      PerfEffect s.module module (s.module.perfWork a.action) := by
    intro total module step
    have effect := perfEffect_of_step ctrl step
    rwa [PerfState.perfWork_withTotal] at effect
  cases move with
  | quiet work step =>
    have effect := effectOf step
    rw [work] at effect
    cases effect with
    | quiet next held =>
      refine ⟨fun n j c here => ?_, inv.past_later next.ge timely.1, inv.chain⟩
      obtain ⟨config, base, ok⟩ := inv.held n j c (held n j c here)
      exact ⟨config, base, ok.later rfl rfl rfl timely.1⟩
  | init work step => exact inv.init ctxs timely (work ▸ effectOf step)
  | restart work there step => exact inv.restart ctxs timely (work ▸ effectOf step) work there small
  | @exit module ctx work step =>
    have effect := effectOf step
    rw [work] at effect
    cases effect with
    | exit nid k _ next own held =>
      refine ⟨fun n j c here => ?_, inv.past_later next.ge timely.1, inv.chain⟩
      obtain ⟨old, apart⟩ := held n j c here
      obtain ⟨config, base, ok⟩ := inv.held n j c old
      have other : c ≠ ctx := fun same => apart (Held.unique ctxs old (same ▸ own))
      exact ⟨config, base, ok.later (Function.update_of_ne other ..) rfl rfl timely.1⟩

end Steps

end Xstats.Xstat
