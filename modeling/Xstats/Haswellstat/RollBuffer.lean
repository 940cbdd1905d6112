/-
**A pass over the counters of haswellstat, sbstat and micstat** (`roll_buffer`, `perf_restart`).

The three modules have the same functions in their tables' `restart` and `reset`, up to those that read
sensors, whose results are taken as they come. The time of a sample is kept in two variables: `ts_restart`
shifts it on, `intv_restart` subtracts. `ts_reset` sets both of them; `perf_reset` leaves the readings of
the events as they are.

* `PerfEvents.perfRestart_eq`, `PerfEvents.perfRestart_spec`: a call of `perf_restart`, and that of a
  counter whose events are all there.
* `PassInv.step`: an iteration of the loop in `roll_buffer`.
* `rollBuffer_spec`: what a pass leaves.
-/

import Xstats.Haswellstat.Init

namespace Xstats.Haswellstat

/-! ### `perf_restart` -/

namespace PerfEvents

/-- `values[cpu]` of a counter set. -/
def setValue (s : PerfEvents) (counter cpu : Nat) (value : PerfEventValue) : PerfEvents :=
  { s with values := Function.update s.values counter (Function.update (s.values counter) cpu value) }

/-- An iteration of `perf_restart`, with the total so far. `read` is what `perf_event_read_value` returns
of the event in the slot of a CPU. -/
def restartSlot (ρ : Rounding) (read : Nat → PerfEventValue) (counter : Nat) (x : Word × PerfEvents)
    (cpu : Nat) : Word × PerfEvents :=
  match x.2.events counter cpu with
  | some _ =>
    (x.1 + (x.2.values counter cpu).scaled ρ (read cpu), x.2.setValue counter cpu (read cpu))
  | none => x

/-- `perf_restart`: what it returns and the readings it leaves. -/
def perfRestart (ρ : Rounding) (ncpus : Nat) (read : Nat → PerfEventValue) (counter : Nat)
    (s : PerfEvents) : Word × PerfEvents :=
  (List.range ncpus).foldl (restartSlot ρ read counter) (0, s)

/-- **`perf_restart`**: it goes through the slots that hold an event, and keeps what it read of each. -/
theorem perfRestart_eq (ρ : Rounding) (ncpus : Nat) (read : Nat → PerfEventValue) (counter : Nat)
    (s : PerfEvents) :
    s.perfRestart ρ ncpus read counter =
      (((List.range ncpus).map fun cpu => if (s.events counter cpu).isSome then
          (s.values counter cpu).scaled ρ (read cpu) else 0).sum,
        { s with values := Function.update s.values counter fun cpu =>
            if cpu < ncpus ∧ (s.events counter cpu).isSome then read cpu
            else s.values counter cpu }) := by
  unfold perfRestart
  induction ncpus with
  | zero => simp
  | succ n ih =>
    rw [List.range_succ, List.foldl_append, ih, List.map_append, List.sum_append, List.map_singleton,
      List.sum_singleton]
    cases held : s.events counter n with
    | none =>
      simp only [List.foldl_cons, List.foldl_nil, restartSlot, held, Option.isSome_none,
        Bool.false_eq_true, if_false, add_zero, Prod.mk.injEq, true_and]
      congr 2
      funext cpu
      by_cases last : cpu = n
      · simp [last, held]
      · have same : cpu < n + 1 ↔ cpu < n := by omega
        simp [same]
    | some event =>
      simp only [List.foldl_cons, List.foldl_nil, restartSlot, held, Function.update_self, lt_irrefl,
        false_and, if_false, Option.isSome_some, if_true, setValue, Function.update_idem,
        Prod.mk.injEq, true_and]
      congr 2
      funext cpu
      by_cases last : cpu = n
      · simp [last, held]
      · have same : cpu < n + 1 ↔ cpu < n := by omega
        simp [last, same]

/-- **`perf_restart`** of a counter that has an event in every slot. -/
theorem perfRestart_spec (ρ : Rounding) {ncpus : Nat} (read : Nat → PerfEventValue) {counter : Nat}
    {s : PerfEvents} (filled : ∀ cpu, cpu < ncpus → s.events counter cpu ≠ none) :
    s.perfRestart ρ ncpus read counter =
      (((List.range ncpus).map fun cpu => (s.values counter cpu).scaled ρ (read cpu)).sum,
        { s with values := Function.update s.values counter fun cpu =>
            if cpu < ncpus then read cpu else s.values counter cpu }) := by
  have held : ∀ cpu, cpu < ncpus → (s.events counter cpu).isSome :=
    fun cpu below => Option.isSome_iff_ne_none.mpr (filled cpu below)
  rw [perfRestart_eq]
  congr 2
  · exact List.map_congr_left fun cpu member => if_pos (held cpu (List.mem_range.mp member))
  · congr 1
    funext cpu
    exact if_congr (and_iff_left_of_imp (held cpu)) rfl rfl

end PerfEvents

/-! ### The counters -/

/-- What a pass reads: the clock at its two ends, the events of each counter, and the sensors. -/
structure Readings where
  first : Word
  last : Word
  perf : Nat → Nat → PerfEventValue
  sensor : Nat → Word

/-- `st_prev`, `st_current` and `st_oh`, the perf events, and `working_buf`. -/
structure CounterState where
  stPrev : Word
  stCurrent : Word
  stOh : Word
  perf : PerfEvents
  workingBuf : Nat → Word

namespace CounterState

/-- A counter's `restart`: the word it returns and the state it leaves. -/
def restart (ρ : Rounding) (ncpus : Nat) (r : Readings) (s : CounterState) (i : Nat) :
    CounterRestart → Word × CounterState
  | .tsRestart => (r.first, { s with stPrev := s.stCurrent, stCurrent := r.first })
  | .intvRestart => (s.stCurrent - s.stPrev, s)
  | .ohRestart => (r.last - s.stCurrent, { s with stOh := r.last })
  | .perfRestart =>
    let (total, perf) := s.perf.perfRestart ρ ncpus (r.perf i) i
    (total, { s with perf })
  | .tempRestart | .temp2Restart | .powerRestart | .voltRestart | .freqRestart => (r.sensor i, s)

/-- A counter's `reset`, at an instant. -/
def reset (now : Word) (s : CounterState) : CounterReset → CounterState
  | .tsReset => { s with stPrev := now, stCurrent := now, stOh := now }
  | .noopReset => s
  -- Do not support perf_reset for now.
  | .perfReset => s

/-- An iteration of the first loop in `roll_buffer`. -/
def restartCounter (ρ : Rounding) (ncpus : Nat) (counters : List MicstatCounter) (r : Readings)
    (s : CounterState) (i : Nat) : CounterState :=
  match counters[i]? with
  | some cnt =>
    let (word, s) := s.restart ρ ncpus r i cnt.restart
    { s with workingBuf := Function.update s.workingBuf i word }
  | none => s

/-- The first loop in `roll_buffer`; the rest of it moves `working_buf` into the ring. -/
def rollBuffer (ρ : Rounding) (ncpus : Nat) (counters : List MicstatCounter) (r : Readings)
    (s : CounterState) : CounterState :=
  (List.range counters.length).foldl (restartCounter ρ ncpus counters r) s

/-- An iteration of the loop in `set_on`. -/
def resetCounter (counters : List MicstatCounter) (now : Word) (s : CounterState) (i : Nat) :
    CounterState :=
  match counters[i]? with
  | some cnt => s.reset now cnt.reset
  | none => s

end CounterState

/-- A table whose first two counters are `ts` and `intv`, with no other `ts`, and in which the counters
that read events also create them. -/
structure SampleTable extends CounterTable where
  ts : ∃ cnt, counters[0]? = some cnt ∧ cnt.restart = .tsRestart ∧ cnt.reset = .tsReset
  intv : ∃ cnt, counters[1]? = some cnt ∧ cnt.restart = .intvRestart
  once : ∀ i cnt, counters[i]? = some cnt → cnt.restart = .tsRestart → i = 0
  perf : ∀ cnt ∈ counters, cnt.restart = .perfRestart → cnt.init.isSome

/-- Counter `c` counts events. -/
def SampleTable.Counts (table : SampleTable) (c : Nat) : Prop :=
  ∃ cnt, table.counters[c]? = some cnt ∧ cnt.restart = .perfRestart

theorem SampleTable.Counts.creates {table : SampleTable} {c : Nat} (counts : table.Counts c) :
    table.Creates c := by
  obtain ⟨cnt, there, perf⟩ := counts
  exact ⟨cnt, there, table.perf cnt (List.mem_of_getElem? there) perf⟩

theorem SampleTable.Counts.lt {table : SampleTable} {c : Nat} (counts : table.Counts c) :
    c < table.counters.length := by
  obtain ⟨_, there, _⟩ := counts
  exact (List.getElem?_eq_some_iff.mp there).1

theorem SampleTable.one_lt (table : SampleTable) : 1 < table.counters.length := by
  obtain ⟨_, second, _⟩ := table.intv
  exact (List.getElem?_eq_some_iff.mp second).1

section Places

variable {table : SampleTable} {n : Nat} {cnt : MicstatCounter}

theorem SampleTable.counts_iff (there : table.counters[n]? = some cnt) :
    table.Counts n ↔ cnt.restart = .perfRestart := by
  constructor
  · rintro ⟨_, here, perf⟩
    rw [there] at here
    cases here
    exact perf
  · exact fun perf => ⟨cnt, there, perf⟩

theorem SampleTable.restart_first (there : table.counters[0]? = some cnt) :
    cnt.restart = .tsRestart := by
  obtain ⟨_, here, ts, _⟩ := table.ts
  rw [there] at here
  cases here
  exact ts

theorem SampleTable.restart_second (there : table.counters[1]? = some cnt) :
    cnt.restart = .intvRestart := by
  obtain ⟨_, here, intv⟩ := table.intv
  rw [there] at here
  cases here
  exact intv

/-- A counter that is neither `ts` nor `intv` stands behind the first two. -/
theorem SampleTable.beyond_clock (there : table.counters[n]? = some cnt)
    (notTs : cnt.restart ≠ .tsRestart) (notIntv : cnt.restart ≠ .intvRestart) : 1 < n := by
  match n with
  | 0 => exact absurd (table.restart_first there) notTs
  | 1 => exact absurd (table.restart_second there) notIntv
  | _ + 2 => omega

end Places

/-! ### A pass -/

/-- The events of all counters are there. -/
def AllFilled (table : SampleTable) (ncpus : Nat) (s : PerfEvents) : Prop :=
  ∀ c, table.Counts c → ∀ cpu, cpu < ncpus → s.events c cpu ≠ none

/-- What a pass that began in the state `before` has done after `n` iterations. -/
structure PassInv (ρ : Rounding) (ncpus : Nat) (table : SampleTable) (r : Readings)
    (before : CounterState) (n : Nat) (s : CounterState) : Prop where
  fresh : n = 0 → s = before
  events : s.perf.events = before.perf.events
  read : ∀ c cpu, c < n → table.Counts c → cpu < ncpus → s.perf.values c cpu = r.perf c cpu
  unread : ∀ c cpu, n ≤ c → s.perf.values c cpu = before.perf.values c cpu
  clock : 0 < n → s.stPrev = before.stCurrent ∧ s.stCurrent = r.first ∧ s.workingBuf 0 = r.first
  interval : 1 < n → s.workingBuf 1 = r.first - before.stCurrent
  totals : ∀ c, c < n → table.Counts c → s.workingBuf c =
    ((List.range ncpus).map fun cpu => (before.perf.values c cpu).scaled ρ (r.perf c cpu)).sum

section Pass

variable {ρ : Rounding} {ncpus : Nat} {table : SampleTable} {r : Readings} {before s : CounterState}

theorem passInv_start : PassInv ρ ncpus table r before 0 before where
  fresh := fun _ => rfl
  events := rfl
  read := fun _ _ below => absurd below (Nat.not_lt_zero _)
  unread := fun _ _ _ => rfl
  clock := fun positive => absurd positive (Nat.lt_irrefl 0)
  interval := fun beyond => absurd beyond (Nat.not_lt_zero 1)
  totals := fun _ below => absurd below (Nat.not_lt_zero _)

/-- An iteration that reads no event. -/
theorem PassInv.quiet {n : Nat} (inv : PassInv ρ ncpus table r before n s) {s' : CounterState}
    {word : Word} (perf : s'.perf = s.perf)
    (workingBuf : s'.workingBuf = Function.update s.workingBuf n word) (idle : ¬ table.Counts n)
    (clock : s'.stPrev = before.stCurrent ∧ s'.stCurrent = r.first ∧ s'.workingBuf 0 = r.first)
    (interval : 1 < n + 1 → s'.workingBuf 1 = r.first - before.stCurrent) :
    PassInv ρ ncpus table r before (n + 1) s' where
  fresh := fun none => absurd none (Nat.succ_ne_zero n)
  events := by rw [perf, inv.events]
  read := fun c cpu below counts inside => by
    have apart : c ≠ n := fun same => idle (same ▸ counts)
    rw [perf]
    exact inv.read c cpu (by omega) counts inside
  unread := fun c cpu beyond => by
    rw [perf]
    exact inv.unread c cpu (by omega)
  clock := fun _ => clock
  interval := interval
  totals := fun c below counts => by
    have apart : c ≠ n := fun same => idle (same ▸ counts)
    rw [workingBuf, Function.update_of_ne apart]
    exact inv.totals c (by omega) counts

/-- An iteration beyond the first two leaves the words of the clock. -/
theorem PassInv.clock_later {n : Nat} (inv : PassInv ρ ncpus table r before n s) (second : 1 < n)
    (word : Word) :
    (s.stPrev = before.stCurrent ∧ s.stCurrent = r.first ∧
        Function.update s.workingBuf n word 0 = r.first) ∧
      (1 < n + 1 → Function.update s.workingBuf n word 1 = r.first - before.stCurrent) := by
  obtain ⟨prev, current, first⟩ := inv.clock (by omega)
  rw [Function.update_of_ne (by omega), Function.update_of_ne (by omega)]
  exact ⟨⟨prev, current, first⟩, fun _ => inv.interval second⟩

/-- An iteration that reads the events of its counter, which is none of the first two. -/
theorem PassInv.counting {n : Nat} (inv : PassInv ρ ncpus table r before n s)
    (filled : AllFilled table ncpus before.perf) (counts : table.Counts n) (second : 1 < n) :
    PassInv ρ ncpus table r before (n + 1)
      { (s.restart ρ ncpus r n .perfRestart).2 with
        workingBuf := Function.update (s.restart ρ ncpus r n .perfRestart).2.workingBuf n
          (s.restart ρ ncpus r n .perfRestart).1 } := by
  have slots : ∀ cpu, cpu < ncpus → s.perf.events n cpu ≠ none := by
    intro cpu below
    rw [inv.events]
    exact filled n counts cpu below
  obtain ⟨clock, interval⟩ := inv.clock_later second _
  simp only [CounterState.restart, PerfEvents.perfRestart_spec ρ (r.perf n) slots]
  constructor
  case fresh => exact fun none => absurd none (Nat.succ_ne_zero n)
  case events => exact inv.events
  case read =>
    intro c cpu below counting inRange
    by_cases own : c = n
    · subst own
      simp [inRange]
    · simp only [Function.update_of_ne own]
      exact inv.read c cpu (by omega) counting inRange
  case unread =>
    intro c cpu later
    have apart : c ≠ n := by omega
    simp only [Function.update_of_ne apart]
    exact inv.unread c cpu (by omega)
  case clock => exact fun _ => clock
  case interval => exact interval
  case totals =>
    intro c below counting
    by_cases own : c = n
    · subst own
      simp only [Function.update_self, inv.unread c _ le_rfl]
    · simp only [Function.update_of_ne own]
      exact inv.totals c (by omega) counting

/-- **One iteration** of the loop in `roll_buffer`. -/
theorem PassInv.step {n : Nat} (inv : PassInv ρ ncpus table r before n s)
    (filled : AllFilled table ncpus before.perf) (inside : n < table.counters.length) :
    PassInv ρ ncpus table r before (n + 1) (s.restartCounter ρ ncpus table.counters r n) := by
  obtain ⟨cnt, there⟩ : ∃ cnt, table.counters[n]? = some cnt := ⟨_, List.getElem?_eq_getElem inside⟩
  have counts := table.counts_iff there
  have beyond := table.beyond_clock there
  have after : s.restartCounter ρ ncpus table.counters r n =
      { (s.restart ρ ncpus r n cnt.restart).2 with
        workingBuf := Function.update (s.restart ρ ncpus r n cnt.restart).2.workingBuf n
          (s.restart ρ ncpus r n cnt.restart).1 } := by
    rw [CounterState.restartCounter, there]
  rw [after]
  cases restart : cnt.restart with
  | tsRestart =>
    obtain rfl := table.once n cnt there restart
    obtain rfl := inv.fresh rfl
    exact inv.quiet rfl rfl (by simp [counts, restart]) ⟨rfl, rfl, rfl⟩ (by omega)
  | intvRestart =>
    have later : n ≠ 0 := by
      rintro rfl
      simp [table.restart_first there] at restart
    by_cases one : n = 1
    · subst one
      obtain ⟨prev, current, ts⟩ := inv.clock Nat.one_pos
      refine inv.quiet rfl rfl (by simp [counts, restart]) ⟨prev, current, ?_⟩ fun _ => ?_
      · show Function.update s.workingBuf 1 (s.stCurrent - s.stPrev) 0 = _
        rw [Function.update_of_ne Nat.zero_ne_one, ts]
      · show Function.update s.workingBuf 1 (s.stCurrent - s.stPrev) 1 = _
        rw [Function.update_self, current, prev]
    · obtain ⟨clock, interval⟩ := inv.clock_later (by omega) _
      exact inv.quiet rfl rfl (by simp [counts, restart]) clock interval
  | ohRestart =>
    obtain ⟨clock, interval⟩ := inv.clock_later (beyond (by simp [restart]) (by simp [restart])) _
    exact inv.quiet rfl rfl (by simp [counts, restart]) clock interval
  | perfRestart =>
    exact inv.counting filled (counts.mpr restart) (beyond (by simp [restart]) (by simp [restart]))
  | tempRestart | temp2Restart | powerRestart | voltRestart | freqRestart =>
    obtain ⟨clock, interval⟩ := inv.clock_later (beyond (by simp [restart]) (by simp [restart])) _
    exact inv.quiet rfl rfl (by simp [counts, restart]) clock interval

/-- **A pass.** -/
theorem rollBuffer_spec (filled : AllFilled table ncpus before.perf) :
    PassInv ρ ncpus table r before table.counters.length
      (before.rollBuffer ρ ncpus table.counters r) := by
  have upTo : ∀ n, n ≤ table.counters.length → PassInv ρ ncpus table r before n
      ((List.range n).foldl (CounterState.restartCounter ρ ncpus table.counters r) before) := by
    intro n
    induction n with
    | zero => exact fun _ => passInv_start
    | succ n ih =>
      intro inside
      rw [List.range_succ, List.foldl_append]
      exact (ih (Nat.le_of_lt inside)).step filled inside
  exact upTo _ le_rfl

end Pass

/-! ### After `micstat_init` -/

/-- Both loops of `perf_init` leave readings that are cleared. -/
theorem values_perfInit (ncpus : Nat) (creates : Nat → Bool) (counter : Nat) {s : PerfEvents}
    (cleared : ∀ c cpu, s.values c cpu = .zero) (c cpu : Nat) :
    (s.perfInit ncpus creates counter).2.values c cpu = .zero := by
  have loop : ∀ (cpus : List Nat) (s : PerfEvents), (∀ c cpu, s.values c cpu = .zero) →
      (PerfEvents.create creates counter cpus s).2.values c cpu = .zero := by
    intro cpus
    induction cpus with
    | nil => exact fun s cleared => cleared c cpu
    | cons k rest ih =>
      intro s cleared
      rw [PerfEvents.create]
      split
      · exact ih _ cleared
      · exact cleared c cpu
  refine loop _ _ fun c cpu => ?_
  show Function.update s.values counter _ c cpu = .zero
  by_cases own : c = counter
  · subst own
    rw [Function.update_self]
    split
    · rfl
    · exact cleared c cpu
  · rw [Function.update_of_ne own]
    exact cleared c cpu

theorem values_initCounters (o : InitOutcomes) {counters : List MicstatCounter} {i : Nat}
    {s : PerfEvents} (cleared : ∀ c cpu, s.values c cpu = .zero) (c cpu : Nat) :
    (initCounters o counters i s).2.2.values c cpu = .zero := by
  induction counters generalizing i s with
  | nil => exact cleared c cpu
  | cons cnt rest ih =>
    have init := values_perfInit o.ncpus (o.creates i) i cleared
    rw [initCounters]
    split
    · show PerfEvents.values (if _ then _ else _ : Int × Nat × PerfEvents).2.2 c cpu = .zero
      split
      · exact init c cpu
      · exact ih init
    · exact ih cleared

/-- A successful `micstat_init` leaves an event in every slot of a counter that counts, and all readings
cleared. -/
theorem initialised_spec {table : SampleTable} {o : InitOutcomes}
    (done : (micstatInitEvents table.toCounterTable o).1 = 0) :
    AllFilled table o.ncpus (micstatInitEvents table.toCounterTable o).2 ∧
      ∀ c cpu, (micstatInitEvents table.toCounterTable o).2.values c cpu = .zero := by
  constructor
  · intro c counts cpu below
    exact ((filled_of_initialised done).filled c counts.lt counts.creates cpu below).2
  · have cleared : ∀ c cpu, (initCounters o table.counters 0 .start).2.2.values c cpu = .zero :=
      values_initCounters o fun _ _ => rfl
    unfold micstatInitEvents at done ⊢
    by_cases looped : (initCounters o table.counters 0 .start).1 = 0
    · simp only [looped, ne_eq, not_true, if_false]
      split
      · exact cleared
      · exact cleared
    · simp only [ne_eq, looped, not_false_eq_true, if_true] at done

end Xstats.Haswellstat
