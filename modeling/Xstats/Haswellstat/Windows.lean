/-
**The windows of the samples of haswellstat, sbstat and micstat.**

`set_on` calls the `reset` of every counter. That of `ts` sets the time from which the first sample's
interval counts; that of the perf counters does nothing, so that the first sample counts from the last
reading of the events, before the pause, or from their creation.

A module is its control, which runs on its own, and its counters, on which two of its steps work: an
iteration of the loop in `set_on`, and the `roll_buffer` of a sampler. The machine is one that multiplexes
nothing; a step begins at one instant and ends at another, and comes to each event at one between.

* `WindowInv.step`: what each pass counts, and from when its interval counts.
* `sample_window_iff`: which samples give the events of the window that their interval states.
-/

import Xstats.Hardware
import Xstats.Haswellstat.OneSampler
import Xstats.Haswellstat.RollBuffer

namespace Xstats.Haswellstat

open Transition

/-! ### The control of a module and its counters -/

/-- What a step of the control does to the counters. -/
inductive CounterWork
  | quiet
  /-- Iteration `i` of the loop in `set_on`. -/
  | reset (i : Nat)
  | rollBuffer
  deriving DecidableEq, Repr

/-- A module: the steps of its control, for given outcomes of its initialisation, what they do to the
counters, and the table of these. No sampler rolls before the first `ts_reset`. -/
structure StatModule where
  table : SampleTable
  σ : Type
  α : Type
  start : InitOutcomes → σ
  step : InitOutcomes → σ → α → Option σ
  work : σ → α → CounterWork
  resets_first : ∀ o trace s a, Run (step o) (start o) trace s → work s a = .rollBuffer →
    ∃ x ∈ trace, work x.1 x.2 = .reset 0

/-! ### haswellstat and sbstat -/

/-- Runs that come to no `ts_reset` keep what each other step does, and so do not come to a pass. -/
theorem resets_first_of_fresh {σ α : Type} {step : σ → α → Option σ} {start : σ}
    {work : σ → α → CounterWork} (Fresh : σ → Prop) (init : Fresh start)
    (preserve : ∀ s a s', Fresh s → step s a = some s' → work s a ≠ .reset 0 → Fresh s')
    (quiet : ∀ s a, Fresh s → work s a ≠ .rollBuffer) {trace : List (σ × α)} {s : σ} {a : α}
    (run : Run step start trace s) (rolls : work s a = .rollBuffer) :
    ∃ x ∈ trace, work x.1 x.2 = .reset 0 := by
  have fresh : Fresh s ∨ ∃ x ∈ trace, work x.1 x.2 = .reset 0 := by
    clear rolls
    induction run with
    | nil => exact .inl init
    | @snoc trace s s' a _ taken ih =>
      rcases ih with fresh | ⟨x, member, reset⟩
      · by_cases reset : work s a = .reset 0
        · exact .inr ⟨(s, a), by simp, reset⟩
        · exact .inl (preserve s a s' fresh taken reset)
      · exact .inr ⟨x, List.mem_append_left _ member, reset⟩
  exact fresh.resolve_left fun fresh => quiet s a fresh rolls

/-- The table of haswellstat and sbstat. -/
def statSamples : SampleTable :=
  { statTable with
    ts := ⟨_, rfl, rfl, rfl⟩
    intv := ⟨_, rfl, rfl⟩
    once := fun i cnt there ts => by
      have all : ∀ i : Fin statCounters.length, (statCounters.get i).restart = .tsRestart →
          i.val = 0 := by
        decide
      obtain ⟨inside, rfl⟩ := List.getElem?_eq_some_iff.mp there
      exact all ⟨i, inside⟩ ts
    perf := by decide }

/-- What a step of haswellstat or sbstat does to the counters. -/
def ControlState.work (s : ControlState Unit) : ControlAction Unit → CounterWork
  | .client c _ =>
    match s.clients c with
    | .reset i => .reset i
    | _ => .quiet
  | .sampler tid => if (s.samplers tid).any fun th => th.pc = .rollBuffer then .rollBuffer else .quiet
  | _ => .quiet

/-- No sampler was created, and no client is in `set_on` beyond the first iteration of its loop. -/
structure ControlState.Fresh (s : ControlState Unit) : Prop where
  samplers : ∀ tid, s.samplers tid = none
  reset : ∀ i, s.clients () = .reset i → i = 0
  kthreadCreate : s.clients () ≠ .kthreadCreate

theorem ControlState.Fresh.step {s s' : ControlState Unit} {a : ControlAction Unit} (fresh : s.Fresh)
    (taken : s.step a = some s') (other : s.work a ≠ .reset 0) : s'.Fresh := by
  obtain ⟨samplers, reset, create⟩ := fresh
  have moved : ∀ (pc : ClientPc), (∀ i, pc = .reset i → i = 0) → pc ≠ .kthreadCreate →
      ∀ {s'' : ControlState Unit}, s''.clients = Function.update s.clients () pc →
      (∀ tid, s''.samplers tid = none) → s''.Fresh := by
    intro pc first notCreate s'' clients none
    have here : s''.clients () = pc := by rw [clients, Function.update_self]
    exact ⟨none, fun i is => first i (here.symm.trans is), fun is => notCreate (here.symm.trans is)⟩
  have woken : ∀ (tid : Nat) (f : Sampler → Sampler) t,
      Function.update s.samplers tid ((s.samplers tid).map f) t = none := by
    intro tid f t
    by_cases here : t = tid
    · subst here
      rw [Function.update_self, samplers, Option.map_none]
    · rw [Function.update_of_ne here, samplers]
  cases move_of_step taken with
  | ignored => exact ⟨samplers, reset, create⟩
  | enters | locks | switches | stores | wakeSkips | wakeFaults | stopFaults | createFails =>
    exact moved _ (by simp) (by simp) rfl samplers
  | @unlocks _ _ call lon here =>
    refine moved (afterSwitch call lon) ?_ ?_ rfl samplers
    · cases call <;> cases lon <;> simp [afterSwitch]
    · cases call <;> cases lon <;> simp [afterSwitch]
  | @joins _ _ call =>
    refine moved (afterCleanup call) ?_ ?_ rfl samplers
    · cases call <;> simp [afterCleanup]
    · cases call <;> simp [afterCleanup]
  | @resets c _ i here =>
    obtain rfl := reset i here
    exact absurd (by simp only [ControlState.work, here]) other
  | @resetEnds c _ i here beyond =>
    obtain rfl := reset i here
    exact absurd (by decide) beyond
  | creates here => exact absurd here create
  | wakes | stops => exact moved _ (by simp) (by simp) rfl (woken _ _)
  | sampler thread =>
    rw [samplers] at thread
    cases thread

/-- haswellstat and sbstat. -/
def statModule : StatModule where
  table := statSamples
  σ := ControlState Unit
  α := ControlAction Unit
  start := fun _ => micstatInit Unit
  step := fun _ => ControlState.step
  work := ControlState.work
  resets_first := fun _ _ _ _ run rolls => by
    have init : (micstatInit Unit).Fresh :=
      ⟨fun _ => rfl, fun _ here => (by cases here), by simp [micstatInit]⟩
    refine resets_first_of_fresh ControlState.Fresh init
      (fun _ _ _ fresh taken other => fresh.step taken other) (fun s a fresh rolls => ?_) run rolls
    cases a with
    | sampler tid => simp [ControlState.work, fresh.samplers tid] at rolls
    | client c created =>
      simp only [ControlState.work] at rolls
      split at rolls <;> cases rolls
    | storeCtrl | exit => cases rolls

/-! ### The machine -/

/-- A module that was loaded: what its initialisation found, the machine, when the event of each counter
and CPU was created, and when all of that was done. -/
structure Loaded (table : SampleTable) where
  outcomes : InitOutcomes
  initialised : (micstatInitEvents table.toCounterTable outcomes).1 = 0
  hardware : Hardware Nat outcomes.ncpus
  born : Nat → Nat → Word
  now : Word
  created : ∀ c cpu, born c cpu ≤ now

/-- The instants of a step: when it begins and ends, and in between when `perf_restart` of a counter comes
to a CPU. -/
structure Times where
  first : Word
  last : Word
  readAt : Nat → Nat → Word

/-- What is read of the events of counter `c` at an instant. -/
def Loaded.readEvent {table : SampleTable} (env : Loaded table) (c cpu : Nat) (t : Word) :
    PerfEventValue :=
  if inside : cpu < env.outcomes.ncpus then env.hardware.read c ⟨cpu, inside⟩ (env.born c cpu) t
  else .zero

/-- What happened to the counters: `ts_reset` at an instant, or a pass, with the sample that it left in
`working_buf`. -/
inductive Entry
  | reset (now : Word)
  | pass (times : Times) (record : Nat → Word)

/-- When the readings of a pass were made. -/
def Entry.readAt : Entry → Option (Nat → Nat → Word)
  | .reset _ => none
  | .pass times _ => some times.readAt

/-- From when the interval of the pass counts that comes next. -/
def Entry.start : Entry → Word
  | .reset now => now
  | .pass times _ => times.first

/-- From when its window is, of each counter and CPU: from `ts_reset`, or from the reading of the sample
before. -/
def Entry.window : Entry → Nat → Nat → Word
  | .reset now => fun _ _ => now
  | .pass times _ => times.readAt

/-- When the events were read last, if not at their creation. -/
def Loaded.lastRead {table : SampleTable} (env : Loaded table) (history : List Entry) :
    Nat → Nat → Word :=
  ((history.filterMap Entry.readAt).getLast?).getD env.born

/-- The state of a module: its control, its counters, the time, and what has happened to the counters. -/
structure StatState (mod : StatModule) where
  control : mod.σ
  counters : CounterState
  clock : Word
  history : List Entry

/-- A step of the control, its instants, and what the sensors show. -/
structure StatAction (mod : StatModule) where
  action : mod.α
  times : Times
  sensor : Nat → Word

/-- The step goes on from where the clock stands. -/
def Timely (counters ncpus : Nat) (clock : Word) (times : Times) : Prop :=
  clock ≤ times.first ∧ times.first ≤ times.last ∧ ∀ c, c < counters → ∀ cpu, cpu < ncpus →
    times.first ≤ times.readAt c cpu ∧ times.readAt c cpu ≤ times.last

instance (counters ncpus : Nat) (clock : Word) (times : Times) :
    Decidable (Timely counters ncpus clock times) := inferInstanceAs (Decidable (_ ∧ _ ∧ _))

namespace StatState

variable {mod : StatModule} (ρ : Rounding) (env : Loaded mod.table)

/-- The state that `micstat_init` leaves. -/
def start : StatState mod :=
  { control := mod.start env.outcomes
    counters :=
      { stPrev := 0, stCurrent := 0, stOh := 0
        perf := (micstatInitEvents mod.table.toCounterTable env.outcomes).2, workingBuf := fun _ => 0 }
    clock := env.now, history := [] }

/-- What a pass of the step would read. -/
def readings (a : StatAction mod) : Readings :=
  { first := a.times.first, last := a.times.last
    perf := fun c cpu => env.readEvent c cpu (a.times.readAt c cpu), sensor := a.sensor }

/-- The counters after a step. -/
def countersAfter (s : StatState mod) (a : StatAction mod) : CounterState :=
  match mod.work s.control a.action with
  | .quiet => s.counters
  | .reset i => s.counters.resetCounter mod.table.counters a.times.first i
  | .rollBuffer => s.counters.rollBuffer ρ env.outcomes.ncpus mod.table.counters (readings env a)

/-- What the step adds to the history. -/
def entries (s : StatState mod) (a : StatAction mod) : List Entry :=
  match mod.work s.control a.action with
  | .quiet => []
  | .reset i =>
    if (mod.table.counters[i]?).any fun cnt => cnt.reset = .tsReset then [.reset a.times.first] else []
  | .rollBuffer => [.pass a.times (s.countersAfter ρ env a).workingBuf]

/-- The step function. -/
def step (s : StatState mod) (a : StatAction mod) : Option (StatState mod) :=
  if Timely mod.table.counters.length env.outcomes.ncpus s.clock a.times then
    (mod.step env.outcomes s.control a.action).map fun control =>
      { control, counters := s.countersAfter ρ env a, clock := a.times.last
        history := s.history ++ s.entries ρ env a }
  else none

/-- No event of a counter goes up by more than the threshold from one reading to the next. -/
def Small (s : StatState mod) (a : StatAction mod) : Prop :=
  mod.work s.control a.action = .rollBuffer → ∀ c, mod.table.Counts c → ∀ cpu : Fin env.outcomes.ncpus,
    env.hardware.between c cpu (env.lastRead s.history c cpu) (a.times.readAt c cpu) <
      PerfEventValue.perfOverflowThreshold

end StatState

/-! ### What a pass counts -/

section Passes

variable {table : SampleTable} (env : Loaded table)

/-- The events of a counter in a window that ends where a pass reads them. -/
def Loaded.eventsIn (c : Nat) (window readAt : Nat → Nat → Word) : Nat :=
  ∑ cpu : Fin env.outcomes.ncpus, env.hardware.between c cpu (window c cpu) (readAt c cpu)

/-- A pass after the entry `prev`, where the events were read last at `lastRead`: its interval counts
from that entry, and its perf counters give the events since the last reading, which is not after the
entry. -/
structure PassOk (prev : Entry) (lastRead : Nat → Nat → Word) (times : Times) (record : Nat → Word) :
    Prop where
  ts : record 0 = times.first
  start_le : prev.start ≤ times.first
  intv : (record 1).toNat = times.first.toNat - prev.start.toNat
  counts : ∀ c, table.Counts c → (record c).toNat = env.eventsIn c lastRead times.readAt
  ordered : ∀ c, table.Counts c → ∀ cpu, cpu < env.outcomes.ncpus →
    lastRead c cpu ≤ prev.window c cpu ∧ prev.window c cpu ≤ times.readAt c cpu

/-- The events of the window that the interval states. -/
theorem PassOk.window_iff {env : Loaded table} {prev : Entry} {lastRead : Nat → Nat → Word}
    {times : Times} {record : Nat → Word} (ok : PassOk env prev lastRead times record) {c : Nat}
    (counts : table.Counts c) :
    (record c).toNat = env.eventsIn c prev.window times.readAt ↔
      ∀ cpu : Fin env.outcomes.ncpus,
        env.hardware.between c cpu (lastRead c cpu) (prev.window c cpu) = 0 := by
  have le : ∀ cpu : Fin env.outcomes.ncpus,
      env.hardware.between c cpu (prev.window c cpu) (times.readAt c cpu) ≤
        env.hardware.between c cpu (lastRead c cpu) (times.readAt c cpu) := by
    intro cpu
    obtain ⟨older, later⟩ := ok.ordered c counts cpu cpu.isLt
    exact env.hardware.between_add c cpu older later ▸ Nat.le_add_left _ _
  rw [ok.counts c counts, Loaded.eventsIn, Loaded.eventsIn, eq_comm,
    Finset.sum_eq_sum_iff_of_le fun cpu _ => le cpu]
  simp only [Finset.mem_univ, true_implies]
  refine forall_congr' fun cpu => ?_
  obtain ⟨older, later⟩ := ok.ordered c counts cpu cpu.isLt
  exact env.hardware.between_eq_iff older later

end Passes

/-! ### The invariant -/

section LastRead

variable {table : SampleTable} (env : Loaded table) (history : List Entry)

theorem lastRead_reset (now : Word) :
    env.lastRead (history ++ [.reset now]) = env.lastRead history := by
  simp [Loaded.lastRead, List.filterMap_append, Entry.readAt]

theorem lastRead_pass (times : Times) (record : Nat → Word) :
    env.lastRead (history ++ [.pass times record]) = times.readAt := by
  simp [Loaded.lastRead, List.filterMap_append, Entry.readAt]

end LastRead

/-- The counters between two steps: the readings that are kept are the last ones, and the clock words
are those of the last entry. -/
structure WindowInv {mod : StatModule} (env : Loaded mod.table) (s : StatState mod) : Prop where
  filled : AllFilled mod.table env.outcomes.ncpus s.counters.perf
  values : ∀ c, mod.table.Counts c → ∀ cpu, cpu < env.outcomes.ncpus →
    s.counters.perf.values c cpu = env.readEvent c cpu (env.lastRead s.history c cpu)
  ordered : ∀ c, mod.table.Counts c → ∀ cpu, cpu < env.outcomes.ncpus →
    env.born c cpu ≤ env.lastRead s.history c cpu ∧ env.lastRead s.history c cpu ≤ s.clock
  clock : ∀ prev ∈ s.history.getLast?, s.counters.stCurrent = prev.start ∧ prev.start ≤ s.clock
  window : ∀ prev ∈ s.history.getLast?, ∀ c, mod.table.Counts c → ∀ cpu, cpu < env.outcomes.ncpus →
    env.lastRead s.history c cpu ≤ prev.window c cpu ∧ prev.window c cpu ≤ s.clock

section Invariant

variable {mod : StatModule} {ρ : Rounding} {env : Loaded mod.table} {s s' : StatState mod}
  {a : StatAction mod}

theorem windowInv_start : WindowInv env (StatState.start env) where
  filled := (initialised_spec env.initialised).1
  values := fun c _ cpu inside => by
    have read : env.readEvent c cpu (env.born c cpu) = .zero := by
      rw [Loaded.readEvent, dif_pos inside, Hardware.read_self]
    exact ((initialised_spec env.initialised).2 c cpu).trans read.symm
  ordered := fun c _ cpu _ => ⟨BitVec.le_refl _, env.created c cpu⟩
  clock := fun _ none => by cases none
  window := fun _ none => by cases none

/-- What `perf_restart` of a counter returns in a pass: the events since the last reading. -/
theorem WindowInv.total (inv : WindowInv env s)
    (timely : Timely mod.table.counters.length env.outcomes.ncpus s.clock a.times)
    (small : s.Small env a) (work : mod.work s.control a.action = .rollBuffer) {c : Nat}
    (counts : mod.table.Counts c) :
    ((List.range env.outcomes.ncpus).map fun cpu => (s.counters.perf.values c cpu).scaled ρ
        ((StatState.readings env a).perf c cpu)).sum.toNat =
      env.eventsIn c (env.lastRead s.history) a.times.readAt := by
  set lastRead := env.lastRead s.history
  let events : Nat → Nat := fun cpu =>
    if inside : cpu < env.outcomes.ncpus then
      env.hardware.between c ⟨cpu, inside⟩ (lastRead c cpu) (a.times.readAt c cpu)
    else 0
  have each : ∀ cpu ∈ List.range env.outcomes.ncpus, (s.counters.perf.values c cpu).scaled ρ
      ((StatState.readings env a).perf c cpu) = BitVec.ofNat 64 (events cpu) := by
    intro cpu member
    have inside := List.mem_range.mp member
    obtain ⟨created, read⟩ := inv.ordered c counts cpu inside
    have later := BitVec.le_trans read (BitVec.le_trans timely.1 (timely.2.2 c counts.lt cpu inside).1)
    have few := (small work c counts ⟨cpu, inside⟩).le
    rw [inv.values c counts cpu inside]
    simp only [StatState.readings, Loaded.readEvent, dif_pos inside, events]
    exact env.hardware.scaled_read ρ created later few
  have total : ((List.range env.outcomes.ncpus).map events).sum =
      env.eventsIn c lastRead a.times.readAt := by
    have range : ((List.range env.outcomes.ncpus).map events).sum =
        ∑ cpu ∈ Finset.range env.outcomes.ncpus, events cpu := rfl
    rw [range, Finset.sum_range]
    exact Finset.sum_congr rfl fun cpu _ => dif_pos cpu.isLt
  have bound : env.eventsIn c lastRead a.times.readAt < 2 ^ 64 :=
    env.hardware.sum_between_lt c Finset.univ (fun cpu => lastRead c cpu)
      fun cpu => (timely.2.2 c counts.lt cpu cpu.isLt).2
  rw [List.map_congr_left each, toNat_sum_ofNat _ _ (total ▸ bound), total]

/-- The pass of a step. -/
theorem WindowInv.passInv (inv : WindowInv env s) (ρ : Rounding)
    (work : mod.work s.control a.action = .rollBuffer) :
    PassInv ρ env.outcomes.ncpus mod.table (StatState.readings env a) s.counters
      mod.table.counters.length (s.countersAfter ρ env a) := by
  rw [StatState.countersAfter, work]
  exact rollBuffer_spec inv.filled

/-- **One pass.** -/
theorem WindowInv.passOk (inv : WindowInv env s)
    (timely : Timely mod.table.counters.length env.outcomes.ncpus s.clock a.times)
    (small : s.Small env a) (work : mod.work s.control a.action = .rollBuffer) {prev : Entry}
    (last : prev ∈ s.history.getLast?) :
    PassOk env prev (env.lastRead s.history) a.times (s.countersAfter ρ env a).workingBuf := by
  have pass := inv.passInv ρ work
  have two := mod.table.one_lt
  obtain ⟨current, past⟩ := inv.clock prev last
  have start_le : prev.start ≤ a.times.first := BitVec.le_trans past timely.1
  constructor
  case ts => exact (pass.clock (Nat.zero_lt_of_lt two)).2.2
  case start_le => exact start_le
  case intv =>
    rw [pass.interval two, current]
    exact BitVec.toNat_sub_of_le start_le
  case counts =>
    intro c counts
    rw [pass.totals c counts.lt counts]
    exact inv.total timely small work counts
  case ordered =>
    intro c counts cpu inside
    obtain ⟨older, past⟩ := inv.window prev last c counts cpu inside
    have read := (timely.2.2 c counts.lt cpu inside).1
    exact ⟨older, BitVec.le_trans past (BitVec.le_trans timely.1 read)⟩

/-- A step that leaves the readings alone. -/
theorem WindowInv.quiet (inv : WindowInv env s) {control : mod.σ} {counters : CounterState} {clock : Word}
    {more : List Entry} (later : s.clock ≤ clock) (perf : counters.perf = s.counters.perf)
    (lastRead : env.lastRead (s.history ++ more) = env.lastRead s.history)
    (entries : ∀ prev ∈ (s.history ++ more).getLast?,
      counters.stCurrent = prev.start ∧ prev.start ≤ clock ∧
      ∀ c, mod.table.Counts c → ∀ cpu, cpu < env.outcomes.ncpus →
        env.lastRead s.history c cpu ≤ prev.window c cpu ∧ prev.window c cpu ≤ clock) :
    WindowInv env ⟨control, counters, clock, s.history ++ more⟩ where
  filled := by rw [perf]; exact inv.filled
  values := by rw [perf, lastRead]; exact inv.values
  ordered := fun c counts cpu inside => by
    rw [lastRead]
    obtain ⟨created, read⟩ := inv.ordered c counts cpu inside
    exact ⟨created, BitVec.le_trans read later⟩
  clock := fun prev last => ⟨(entries prev last).1, (entries prev last).2.1⟩
  window := fun prev last => by rw [lastRead]; exact (entries prev last).2.2

/-- The last entry stays as it is while time passes. -/
theorem WindowInv.entries_later (inv : WindowInv env s) {clock : Word} (later : s.clock ≤ clock) :
    ∀ prev ∈ (s.history ++ []).getLast?, s.counters.stCurrent = prev.start ∧ prev.start ≤ clock ∧
      ∀ c, mod.table.Counts c → ∀ cpu, cpu < env.outcomes.ncpus →
        env.lastRead s.history c cpu ≤ prev.window c cpu ∧ prev.window c cpu ≤ clock := by
  intro prev last
  rw [List.append_nil] at last
  obtain ⟨current, past⟩ := inv.clock prev last
  refine ⟨current, BitVec.le_trans past later, fun c counts cpu inside => ?_⟩
  obtain ⟨older, read⟩ := inv.window prev last c counts cpu inside
  exact ⟨older, BitVec.le_trans read later⟩

/-- **One step.** -/
theorem WindowInv.step (inv : WindowInv env s) (taken : s.step ρ env a = some s') :
    WindowInv env s' := by
  obtain ⟨timely, step⟩ := Option.ite_none_right_eq_some.mp taken
  obtain ⟨control, _, rfl⟩ := Option.map_eq_some_iff.mp step
  have later : s.clock ≤ a.times.last := BitVec.le_trans timely.1 timely.2.1
  cases work : mod.work s.control a.action with
  | quiet =>
    simp only [StatState.countersAfter, StatState.entries, work]
    exact inv.quiet later rfl (by rw [List.append_nil]) (inv.entries_later later)
  | reset i =>
    simp only [StatState.countersAfter, StatState.entries, work, CounterState.resetCounter]
    cases there : mod.table.counters[i]? with
    | none =>
      exact inv.quiet later rfl (by rw [Option.any_none, if_neg (by simp), List.append_nil])
        (inv.entries_later later)
    | some cnt =>
      cases reset : cnt.reset with
      | tsReset =>
        simp only [Option.any_some, reset, decide_true, if_true, CounterState.reset]
        refine inv.quiet later rfl (lastRead_reset ..) ?_
        rintro prev last
        rw [List.getLast?_concat] at last
        cases last
        refine ⟨rfl, timely.2.1, fun c counts cpu inside => ⟨?_, timely.2.1⟩⟩
        exact BitVec.le_trans (inv.ordered c counts cpu inside).2 timely.1
      | noopReset | perfReset =>
        simp only [Option.any_some, reset, reduceCtorEq, decide_false, Bool.false_eq_true, if_false,
          CounterState.reset]
        exact inv.quiet later rfl (by rw [List.append_nil]) (inv.entries_later later)
  | rollBuffer =>
    have pass := inv.passInv ρ work
    have entries : s.entries ρ env a = [.pass a.times (s.countersAfter ρ env a).workingBuf] := by
      rw [StatState.entries, work]
    rw [entries]
    constructor
    case filled =>
      intro c counts cpu inside
      show (s.countersAfter ρ env a).perf.events c cpu ≠ none
      rw [pass.events]
      exact inv.filled c counts cpu inside
    case values =>
      intro c counts cpu inside
      rw [lastRead_pass]
      exact pass.read c cpu counts.lt counts inside
    case ordered =>
      intro c counts cpu inside
      rw [lastRead_pass]
      obtain ⟨created, read⟩ := inv.ordered c counts cpu inside
      obtain ⟨first, last⟩ := timely.2.2 c counts.lt cpu inside
      exact ⟨BitVec.le_trans created (BitVec.le_trans read (BitVec.le_trans timely.1 first)), last⟩
    case clock =>
      intro prev last
      rw [List.getLast?_concat] at last
      cases last
      exact ⟨(pass.clock (Nat.zero_lt_of_lt mod.table.one_lt)).2.1, timely.2.1⟩
    case window =>
      intro prev last c counts cpu inside
      rw [List.getLast?_concat] at last
      cases last
      rw [lastRead_pass]
      exact ⟨BitVec.le_refl _, (timely.2.2 c counts.lt cpu inside).2⟩

end Invariant

/-! ### Runs -/

section Runs

variable {mod : StatModule} {ρ : Rounding} {env : Loaded mod.table}
  {trace : List (StatState mod × StatAction mod)} {s : StatState mod}

/-- The steps of the control in a run. -/
def controlSteps (trace : List (StatState mod × StatAction mod)) : List (mod.σ × mod.α) :=
  trace.map fun x => (x.1.control, x.2.action)

theorem control_run (run : Run (StatState.step ρ env) (StatState.start env) trace s) :
    Run (mod.step env.outcomes) (mod.start env.outcomes) (controlSteps trace) s.control := by
  induction run with
  | nil => exact .nil
  | snoc _ taken ih =>
    obtain ⟨_, step⟩ := Option.ite_none_right_eq_some.mp taken
    obtain ⟨control, moved, rfl⟩ := Option.map_eq_some_iff.mp step
    rw [controlSteps, List.map_append]
    exact ih.snoc moved

/-- Once `ts_reset` was called the history has an entry. -/
theorem history_ne_nil (run : Run (StatState.step ρ env) (StatState.start env) trace s)
    (reset : ∃ x ∈ controlSteps trace, mod.work x.1 x.2 = .reset 0) : s.history ≠ [] := by
  induction run with
  | nil =>
    obtain ⟨_, member, _⟩ := reset
    cases member
  | @snoc trace s _ a _ taken ih =>
    obtain ⟨_, step⟩ := Option.ite_none_right_eq_some.mp taken
    obtain ⟨control, _, rfl⟩ := Option.map_eq_some_iff.mp step
    obtain ⟨x, member, work⟩ := reset
    rw [controlSteps, List.map_append] at member
    rcases List.mem_append.mp member with old | new
    · exact List.append_ne_nil_of_left_ne_nil (ih ⟨x, old, work⟩) _
    · rw [List.map_singleton, List.mem_singleton] at new
      subst new
      obtain ⟨cnt, first, _, reset⟩ := mod.table.ts
      refine List.append_ne_nil_of_right_ne_nil _ ?_
      simp only [StatState.entries, work, first, Option.any_some, reset, decide_true, if_true]
      exact List.cons_ne_nil _ _

/-- An entry of a history that another was appended to. -/
theorem entry_of_concat {history earlier later : List Entry} {new entry : Entry}
    (split : history ++ [new] = earlier ++ entry :: later) :
    (earlier = history ∧ entry = new) ∨ ∃ rest, history = earlier ++ entry :: rest := by
  cases later using List.reverseRecOn with
  | nil =>
    obtain ⟨rfl, last⟩ := List.append_inj' split rfl
    cases last
    exact .inl ⟨rfl, rfl⟩
  | append_singleton rest last =>
    rw [← List.cons_append, ← List.append_assoc] at split
    exact .inr ⟨rest, (List.append_inj' split rfl).1⟩

/-- **Every pass of a run** is one after the entry before it. -/
theorem passes_ok (run : Run (StatState.step ρ env) (StatState.start env) trace s)
    (small : ∀ x ∈ trace, x.1.Small env x.2) :
    WindowInv env s ∧ ∀ earlier times record later, s.history = earlier ++ .pass times record :: later →
      ∃ prev ∈ earlier.getLast?, PassOk env prev (env.lastRead earlier) times record := by
  induction run with
  | nil => exact ⟨windowInv_start, fun earlier _ _ _ none => by cases earlier <;> cases none⟩
  | @snoc trace s _ a run taken ih =>
    obtain ⟨inv, passes⟩ := ih fun x member => small x (List.mem_append_left _ member)
    refine ⟨inv.step taken, fun earlier times record later split => ?_⟩
    have smallNow := small (s, a) (by simp)
    obtain ⟨timely, step⟩ := Option.ite_none_right_eq_some.mp taken
    obtain ⟨control, _, rfl⟩ := Option.map_eq_some_iff.mp step
    change s.history ++ s.entries ρ env a = _ at split
    cases work : mod.work s.control a.action with
    | quiet =>
      rw [StatState.entries, work] at split
      simp only [List.append_nil] at split
      exact passes _ _ _ _ split
    | reset i =>
      rw [StatState.entries, work] at split
      simp only at split
      split at split
      · rcases entry_of_concat split with ⟨_, other⟩ | ⟨rest, before⟩
        · cases other
        · exact passes _ _ _ _ before
      · rw [List.append_nil] at split
        exact passes _ _ _ _ split
    | rollBuffer =>
      rw [StatState.entries, work] at split
      rcases entry_of_concat split with ⟨rfl, same⟩ | ⟨rest, before⟩
      · cases same
        have some := history_ne_nil run (mod.resets_first _ _ _ _ (control_run run) work)
        obtain ⟨prev, last⟩ := Option.isSome_iff_exists.mp (List.getLast?_isSome.mpr some)
        exact ⟨prev, last, inv.passOk timely smallNow work last⟩
      · exact passes _ _ _ _ before

/-- **The windows of the samples.** In every run of a module, with any writes to its control one after the
other, on a machine whose events go up by less than the threshold from one reading to the next: the
interval of a sample counts from the sample before, or from `ts_reset` if the sample is the first since
the module was switched on. A perf counter gives the events since they were read last, which are those of
the same window, except in such a first sample, where they are exactly if nothing happened between the last
reading and `ts_reset`. -/
theorem sample_window_iff (run : Run (StatState.step ρ env) (StatState.start env) trace s)
    (small : ∀ x ∈ trace, x.1.Small env x.2) {earlier later : List Entry} {times : Times}
    {record : Nat → Word} (sample : s.history = earlier ++ .pass times record :: later) :
    ∃ prev ∈ earlier.getLast?, record 0 = times.first ∧ prev.start ≤ times.first ∧
      (record 1).toNat = times.first.toNat - prev.start.toNat ∧
      ∀ c, mod.table.Counts c →
        (record c).toNat = env.eventsIn c (env.lastRead earlier) times.readAt ∧
        ((record c).toNat = env.eventsIn c prev.window times.readAt ↔
          ∀ now, prev = .reset now → ∀ cpu : Fin env.outcomes.ncpus,
            env.hardware.between c cpu (env.lastRead earlier c cpu) now = 0) := by
  obtain ⟨prev, last, ok⟩ := (passes_ok run small).2 earlier times record later sample
  refine ⟨prev, last, ok.ts, ok.start_le, ok.intv, fun c counts => ⟨ok.counts c counts, ?_⟩⟩
  rw [ok.window_iff counts]
  cases prev with
  | reset now => simp [Entry.window]
  | pass times' record' =>
    obtain ⟨before, rfl⟩ := List.getLast?_eq_some_iff.mp last
    have none : ∀ cpu : Fin env.outcomes.ncpus, env.hardware.between c cpu
        (env.lastRead (before ++ [.pass times' record']) c cpu) (times'.readAt c cpu) = 0 := by
      intro cpu
      rw [lastRead_pass, Hardware.between_self]
    simp [Entry.window, none]

end Runs

/-! ### A pause between two samples -/

/-- haswellstat loaded at the instant one, on a machine with one CPU, where each counter counts five events
at the instant two. -/
def fiveLoaded : Loaded statModule.table where
  outcomes := ⟨1, fun _ _ => true, 0⟩
  initialised := by decide +kernel
  hardware := .fiveAtTwo Nat
  born := fun _ _ => 1
  now := 1
  created := fun _ _ => BitVec.le_refl _

theorem small_fiveLoaded (s : StatState statModule) (a : StatAction statModule) :
    s.Small fiveLoaded a := by
  intro _ c _ cpu
  have few : fiveLoaded.hardware.total c cpu (a.times.readAt c cpu) ≤ 5 := by
    show (if a.times.readAt c cpu < 2 then 0 else 5) ≤ 5
    split <;> decide
  exact (Nat.sub_le _ _).trans_lt (few.trans_lt (by decide))

/-- The actions, all at one instant. -/
def allAt (instant : Word) (actions : List (ControlAction Unit)) : List (StatAction statModule) :=
  actions.map fun action => ⟨action, ⟨instant, instant, fun _ _ => instant⟩, fun _ => 0⟩

/-- The module is switched on, and its sampler makes a pass and sleeps. -/
def sampledOnce (tid : Nat) : List (ControlAction Unit) :=
  .storeCtrl () "on".toList :: List.replicate 18 (.client () true) ++ List.replicate 6 (.sampler tid)

/-- It is switched off, and its sampler ends. -/
def switchedOff (tid : Nat) : List (ControlAction Unit) :=
  .storeCtrl () "off".toList :: List.replicate 4 (.client () true) ++ List.replicate 2 (.sampler tid) ++
    [.client () true]

/-- The last entry is a pass that the test says yes to. -/
def lastPass (test : Entry → Times → (Nat → Word) → Bool) (s : StatState statModule) : Bool :=
  match s.history.reverse with
  | .pass times record :: prev :: _ => test prev times record
  | _ => false

theorem run_of_lastPass {test : Entry → Times → (Nat → Word) → Bool}
    {actions : List (StatAction statModule)}
    (done : (exec (StatState.step .exact fiveLoaded) (StatState.start fiveLoaded) actions).any
      (lastPass test)) :
    ∃ trace s before prev times record,
      Run (StatState.step .exact fiveLoaded) (StatState.start fiveLoaded) trace s ∧
      s.history = before ++ [prev] ++ [.pass times record] ∧ test prev times record := by
  obtain ⟨trace, s, run, _, passed⟩ := run_of_exec_any done
  unfold lastPass at passed
  split at passed
  · next times record prev before reversed =>
    refine ⟨trace, s, before.reverse, prev, times, record, run, ?_, passed⟩
    rw [← List.reverse_reverse s.history, reversed]
    simp
  · cases passed

/-- The second of two samples of one sampler counts the five events. -/
theorem sample_window_steady :
    ∃ trace s before prev times record,
      Run (StatState.step .exact fiveLoaded) (StatState.start fiveLoaded) trace s ∧
      s.history = before ++ [prev] ++ [.pass times record] ∧ record 3 = 5 ∧
      (record 3).toNat = fiveLoaded.eventsIn 3 prev.window times.readAt := by
  have done : (exec (StatState.step .exact fiveLoaded) (StatState.start fiveLoaded)
      (allAt 1 (sampledOnce 0) ++ allAt 3 (List.replicate 5 (.sampler 0)))).any
        (lastPass fun prev _ record => prev.readAt.isSome && record 3 == 5) := by
    decide +kernel
  obtain ⟨trace, s, before, prev, times, record, run, sample, passed⟩ := run_of_lastPass done
  simp only [Bool.and_eq_true, beq_iff_eq] at passed
  obtain ⟨prev', last, _, _, _, counters⟩ :=
    sample_window_iff run (fun x _ => small_fiveLoaded x.1 x.2) sample
  rw [List.getLast?_concat] at last
  cases last
  have cyc : statModule.table.Counts 3 := ⟨_, rfl, rfl⟩
  refine ⟨trace, s, before, prev, times, record, run, sample, passed.2, (counters 3 cyc).2.mpr ?_⟩
  rintro now rfl
  cases passed.1

/-- Five events happen in a pause, and the first sample after it counts them, whose interval is zero. -/
theorem first_sample_counts_pause :
    ¬ ∀ (ρ : Rounding) (env : Loaded statModule.table) trace (s : StatState statModule),
      Run (StatState.step ρ env) (StatState.start env) trace s → (∀ x ∈ trace, x.1.Small env x.2) →
      ∀ before prev times record, s.history = before ++ [prev] ++ [.pass times record] →
        ∀ c, statModule.table.Counts c → (record c).toNat = env.eventsIn c prev.window times.readAt := by
  intro all
  have done : (exec (StatState.step .exact fiveLoaded) (StatState.start fiveLoaded)
      (allAt 1 (sampledOnce 0 ++ switchedOff 0) ++ allAt 3 (sampledOnce 1))).any
        (lastPass fun prev times record =>
          !decide ((record 3).toNat = fiveLoaded.eventsIn 3 prev.window times.readAt)) := by
    decide +kernel
  obtain ⟨trace, s, before, prev, times, record, run, sample, missed⟩ := run_of_lastPass done
  have cyc : statModule.table.Counts 3 := ⟨_, rfl, rfl⟩
  have same := all .exact fiveLoaded trace s run (fun x _ => small_fiveLoaded x.1 x.2) before prev times
    record sample 3 cyc
  simp [same] at missed

end Xstats.Haswellstat
