/-
**The pace of haswellstat, sbstat and micstat, and what their sampling costs** (`kthread_function`,
`roll_buffer`, `micstat_store_period`).

After a pass `kthread_function` sleeps for the period less the time that the pass took, and for four times
that time where the period is less than five times of it. Here the module runs against its clock: `msleep`
returns no sooner than it was asked to, and `period` may be written between any two reads of it. How long
a pass takes is left open.

* `slept_enough`: what a pass sleeps, for any two values that it read.
* `RestInv.step`: what is known of a thread from one pass to the next.
* `stat_samples_paced`: samples of one sampler keep the pace of the least period, and the overhead that
  they state is at most a fifth of the time, but for four milliseconds of each pass.

The second is so unless `period` was raised between the two reads of a pass.
-/

import Xstats.Haswellstat.Sleep
import Xstats.Haswellstat.Windows
import Xstats.Lib.Spacing

namespace Xstats.Haswellstat

open SharedReads Spacing Transition

/-! ### A module with the places of its threads -/

/-- Where a thread is on the way from one pass to the next. -/
inductive RestStage
  /-- Before a pass, or at the end of the thread. -/
  | ready
  /-- After a pass, before its `tosleep` is known. -/
  | rolled
  /-- The next step of the control is the return of `msleep`. -/
  | sleeping
  deriving DecidableEq, Repr

/-- What a step of a thread does to the counters, and where it takes the thread. -/
inductive RestMove : CounterWork → RestStage → RestStage → Prop
  | stays : RestMove .quiet .ready .ready
  | rolls {stage : RestStage} (left : stage ≠ .ready) : RestMove .rollBuffer .ready stage
  | computes : RestMove .quiet .rolled .sleeping
  | wakes : RestMove .quiet .sleeping .ready

/-- A module whose last counter is `oh`. Its threads go from pass to pass, and nobody works on the
counters while another thread is between a pass and the next. -/
structure PacedModule extends StatModule where
  /-- The thread whose step it is. -/
  thread : α → Option Nat
  stage : σ → Nat → RestStage
  oh : ∃ cnt, table.counters[table.counters.length - 1]? = some cnt ∧ cnt.restart = .ohRestart
  fresh : ∀ o tid, stage (start o) tid = .ready
  own : ∀ {o s a s' tid}, step o s a = some s' → thread a = some tid →
    RestMove (work s a) (stage s tid) (stage s' tid)
  others : ∀ {o s a s' tid}, (micstatInitEvents table.toCounterTable o).1 = 0 →
    Reachable (step o) (start o) s → step o s a = some s' → thread a ≠ some tid →
    stage s' tid = stage s tid
  alone : ∀ {o s a tid}, (micstatInitEvents table.toCounterTable o).1 = 0 →
    Reachable (step o) (start o) s → work s a ≠ .quiet → thread a ≠ some tid →
    stage s tid = .ready

/-! ### The module against its clock -/

/-- What a thread has done since its last pass. -/
inductive Rest
  | begun
  /-- It is at its `tosleep`. -/
  | computing (pass : Pass Rolled (BitVec 32))
  /-- It has called `msleep`, which returns at `wakeAt` or later. -/
  | asleep (wakeAt : Nat)
  deriving DecidableEq, Repr

/-- What a thread has done since its last pass when it has made a step of the module, at an instant:
`tosleep` is computed before it goes on, and `msleep` does not return too early. -/
def Rest.after (now : Word) : RestStage → Rest → Option Rest
  | .ready, rest => some rest
  | .rolled, .computing pass =>
    match pass.left kthreadSleep with
    | some (.done _) => some (.computing pass)
    | _ => none
  | .sleeping, .asleep wakeAt => if wakeAt ≤ now.toNat then some .begun else none
  | _, _ => none

/-- A sample, with the thread that took it. -/
structure Sample where
  tid : Nat
  record : Nat → Word

def Sample.ts (x : Sample) : Word := x.record 0

/-- The last word of a sample. -/
def PacedModule.ohOf (mod : PacedModule) (x : Sample) : Word :=
  x.record (mod.table.counters.length - 1)

/-- The module, `period`, the threads' rests, and the samples taken. -/
structure PacedState (mod : PacedModule) where
  core : StatState mod.toStatModule
  period : BitVec 32
  rest : Nat → Rest
  samples : List Sample

inductive PacedAction (mod : PacedModule)
  | storePeriod (buf : List Char)
  /-- A thread reads `st_oh` and `st_current`. -/
  | readClock (tid : Nat)
  | readPeriod (tid : Nat)
  /-- A thread calls `msleep`, at an instant. -/
  | msleep (tid : Nat) (now : Word)
  | module (a : StatAction mod.toStatModule)

namespace PacedState

variable {mod : PacedModule} (ρ : Rounding) (env : Loaded mod.table)

/-- The state that `micstat_init` leaves. -/
def start : PacedState mod :=
  { core := .start env, period := initialPeriod, rest := fun _ => .begun, samples := [] }

def setRest (st : PacedState mod) (tid : Nat) (rest : Rest) : PacedState mod :=
  { st with rest := Function.update st.rest tid rest }

/-- The same of the threads' rests. -/
def restAfter (st : PacedState mod) (a : StatAction mod.toStatModule) : Option (Nat → Rest) :=
  match mod.thread a.action with
  | none => some st.rest
  | some tid => (Rest.after a.times.first (mod.stage st.core.control tid) (st.rest tid)).map
      (Function.update st.rest tid)

/-- The sample that a step takes. -/
def newSamples (st : PacedState mod) (a : StatAction mod.toStatModule) : List Sample :=
  match mod.work st.core.control a.action, mod.thread a.action with
  | .rollBuffer, some tid => [⟨tid, (st.core.countersAfter ρ env a).workingBuf⟩]
  | _, _ => []

/-- The step function. -/
def step (kstrtoul : List Char → Option Word) (st : PacedState mod) :
    PacedAction mod → Option (PacedState mod)
  | .storePeriod buf => some { st with period := micstatStorePeriod kstrtoul buf st.period }
  | .readClock tid =>
    match mod.stage st.core.control tid, st.rest tid with
    | .rolled, .begun | .sleeping, .begun =>
      let rolled : Rolled := ⟨st.core.counters.stOh, st.core.counters.stCurrent⟩
      some (st.setRest tid (.computing ⟨rolled, []⟩))
    | _, _ => none
  | .readPeriod tid =>
    match st.rest tid with
    | .computing pass =>
      match pass.left kthreadSleep with
      | some (.read _) =>
        some (st.setRest tid (.computing { pass with reads := pass.reads ++ [st.period] }))
      | _ => none
    | _ => none
  | .msleep tid now =>
    match mod.stage st.core.control tid, st.rest tid with
    | .sleeping, .computing pass =>
      match pass.left kthreadSleep with
      | some (.done tosleep) =>
        if st.core.clock ≤ now then
          some { st.setRest tid (.asleep (now.toNat + tosleep.toNat * 1000000)) with
            core := { st.core with clock := now } }
        else none
      | _ => none
    | _, _ => none
  | .module a => do
    let rest ← st.restAfter a
    let core ← st.core.step ρ env a
    return { st with core, rest, samples := st.samples ++ st.newSamples ρ env a }

end PacedState

/-! ### One pass -/

/-- The time that a sample asks for until the next one: the period, and five times its overhead. -/
structure Due (p : Nat) (calm : Prop) (ts oh : Word) (time : Nat) : Prop where
  pace : ts.toNat + p * 1000000 ≤ time
  overhead : calm → 5 * (oh.toNat / 1000000) < 2 ^ 32 → ts.toNat + 5 * oh.toNat ≤ time + 4000000

theorem Due.later {p : Nat} {calm : Prop} {ts oh : Word} {time time' : Nat} (due : Due p calm ts oh time)
    (later : time ≤ time') : Due p calm ts oh time' :=
  ⟨due.pace.trans later, fun quiet short =>
    (due.overhead quiet short).trans (Nat.add_le_add_right later _)⟩

/-- **A pass sleeps enough**, whatever it read; and four times its overhead, unless the second value it
read is the larger one. -/
theorem slept_enough {rolled : Rolled} {reads : List (BitVec 32)} {tosleep : BitVec 32} {p : Nat}
    {calm : Prop} (left : (kthreadSleep rolled).feed reads = some (.done tosleep))
    (read : ∀ v ∈ reads, Accepted v ∧ p ≤ v.toNat)
    (quiet : calm → ∀ first second, reads = [first, second] → second ≤ first)
    (forward : rolled.stCurrent ≤ rolled.stOh) :
    Due p calm rolled.stCurrent (rolled.stOh - rolled.stCurrent)
      (rolled.stOh.toNat + tosleep.toNat * 1000000) := by
  obtain ⟨first, second, rfl, rfl⟩ := reads_of_kthreadSleep left
  obtain ⟨⟨_, firstHigh⟩, firstSlow⟩ := read first (by simp)
  obtain ⟨⟨_, secondHigh⟩, secondSlow⟩ := read second (by simp)
  have passed : (rolled.stOh - rolled.stCurrent).toNat = rolled.stOh.toNat - rolled.stCurrent.toNat :=
    BitVec.toNat_sub_of_le forward
  have order := BitVec.le_def.mp forward
  have oh : rolled.oh.toNat = (rolled.stOh.toNat - rolled.stCurrent.toNat) / 1000000 % 2 ^ 32 := by
    rw [Rolled.oh, BitVec.toNat_setWidth, BitVec.toNat_udiv, passed]
    rfl
  have five : (rolled.oh * 5).toNat = rolled.oh.toNat * 5 % 2 ^ 32 := BitVec.toNat_mul _ _
  have four : (rolled.oh * 4).toNat = rolled.oh.toNat * 4 % 2 ^ 32 := BitVec.toNat_mul _ _
  have difference : (first - rolled.oh).toNat = (2 ^ 32 - rolled.oh.toNat + first.toNat) % 2 ^ 32 :=
    BitVec.toNat_sub _ _
  by_cases heavy : second < rolled.oh * 5
  · rw [if_pos heavy, four]
    have above := BitVec.lt_def.mp heavy
    rw [five] at above
    constructor
    · omega
    · intro _ short
      omega
  · rw [if_neg heavy, difference]
    have above := BitVec.not_lt.mp heavy
    rw [BitVec.le_def, five] at above
    constructor
    · omega
    · intro calmly short
      have lowered := BitVec.le_def.mp (quiet calmly first second rfl)
      omega

/-- `oh` is the last of the counters: it is the time from the `ts` of the pass to its end. -/
theorem rollBuffer_oh {ρ : Rounding} {ncpus : Nat} {counters : List MicstatCounter} {r : Readings}
    {before : CounterState} {cnt : MicstatCounter} (last : counters[counters.length - 1]? = some cnt)
    (oh : cnt.restart = .ohRestart) :
    (before.rollBuffer ρ ncpus counters r).stOh = r.last ∧
      (before.rollBuffer ρ ncpus counters r).workingBuf (counters.length - 1) =
        r.last - (before.rollBuffer ρ ncpus counters r).stCurrent := by
  have inside := (List.getElem?_eq_some_iff.mp last).1
  have upTo : counters.length = counters.length - 1 + 1 := by omega
  have split : before.rollBuffer ρ ncpus counters r =
      CounterState.restartCounter ρ ncpus counters r
        ((List.range (counters.length - 1)).foldl (CounterState.restartCounter ρ ncpus counters r) before)
        (counters.length - 1) := by
    rw [CounterState.rollBuffer, upTo, List.range_succ, List.foldl_append]
    rfl
  rw [split, CounterState.restartCounter, last]
  simp [oh, CounterState.restart]

/-! ### From one pass to the next -/

section Invariant

variable {mod : PacedModule} {ρ : Rounding} {env : Loaded mod.table} {st st' : PacedState mod} {p : Nat}
  {calm : Prop}

namespace PacedState

/-- The last sample is the thread's own, and `st_current` and `st_oh` are those of its pass. -/
def Own (st : PacedState mod) (tid : Nat) : Prop :=
  st.core.counters.stCurrent ≤ st.core.counters.stOh ∧ st.core.counters.stOh ≤ st.core.clock ∧
    ∃ x ∈ st.samples.getLast?, x.tid = tid ∧ x.ts = st.core.counters.stCurrent ∧
      mod.ohOf x = st.core.counters.stOh - st.core.counters.stCurrent

/-- If the last sample is the thread's own, the next one is due at that time. -/
def DueBy (p : Nat) (calm : Prop) (st : PacedState mod) (tid time : Nat) : Prop :=
  ∀ x ∈ st.samples.getLast?, x.tid = tid → Due p calm x.ts (mod.ohOf x) time

/-- What is known of a thread, by where it is. -/
def RestOk (p : Nat) (calm : Prop) (st : PacedState mod) (tid : Nat) : RestStage → Rest → Prop
  | .ready, .begun => st.DueBy p calm tid st.core.clock.toNat
  | .rolled, .begun | .sleeping, .begun => st.Own tid
  | .rolled, .computing pass | .sleeping, .computing pass =>
    st.Own tid ∧ pass.input = ⟨st.core.counters.stOh, st.core.counters.stCurrent⟩ ∧
      (∀ v ∈ pass.reads, Accepted v ∧ p ≤ v.toNat) ∧
      (calm → ∀ first second, pass.reads = [first, second] → second ≤ first)
  | .sleeping, .asleep wakeAt => st.DueBy p calm tid wakeAt
  | _, _ => False

/-- The period is raised between the two reads of a pass. -/
def Raised (st : PacedState mod) (a : PacedAction mod) : Prop :=
  ∃ tid pass first, a = .readPeriod tid ∧ st.rest tid = .computing pass ∧ pass.reads = [first] ∧
    first < st.period

end PacedState

open PacedState

/-- What holds of the threads, and of the samples they have taken. -/
structure RestInv (p : Nat) (calm : Prop) (env : Loaded mod.table) (st : PacedState mod) : Prop where
  reached : Reachable (mod.step env.outcomes) (mod.start env.outcomes) st.core.control
  window : WindowInv env st.core
  accepted : Accepted st.period
  rest : ∀ tid, st.RestOk p calm tid (mod.stage st.core.control tid) (st.rest tid)
  paced : st.samples.IsChain fun x y => x.tid = y.tid → Due p calm x.ts (mod.ohOf x) y.ts.toNat

/-- Time passes, and the counters and the samples stay as they are. -/
theorem PacedState.RestOk.later {tid : Nat} {stage : RestStage} {rest : Rest}
    (ok : st.RestOk p calm tid stage rest) (clock : st.core.clock ≤ st'.core.clock)
    (counters : st'.core.counters = st.core.counters) (samples : st'.samples = st.samples) :
    st'.RestOk p calm tid stage rest := by
  have own : st.Own tid → st'.Own tid := by
    rintro ⟨forward, past, last⟩
    unfold Own
    rw [counters, samples]
    exact ⟨forward, BitVec.le_trans past clock, last⟩
  cases stage with
  | ready =>
    cases rest with
    | begun =>
      intro x last own
      rw [samples] at last
      exact (ok x last own).later (BitVec.le_def.mp clock)
    | computing | asleep => exact ok
  | rolled =>
    cases rest with
    | begun => exact own ok
    | computing pass =>
      obtain ⟨mine, input, reads⟩ := ok
      refine ⟨own mine, ?_, reads⟩
      rw [counters]
      exact input
    | asleep => exact ok
  | sleeping =>
    cases rest with
    | begun => exact own ok
    | computing pass =>
      obtain ⟨mine, input, reads⟩ := ok
      refine ⟨own mine, ?_, reads⟩
      rw [counters]
      exact input
    | asleep wakeAt =>
      intro x last own
      rw [samples] at last
      exact ok x last own

/-- Of a thread with its `tosleep` it is the same whether it has gone on or not. -/
theorem PacedState.RestOk.sleeping {tid : Nat} {pass : Pass Rolled (BitVec 32)}
    (ok : st.RestOk p calm tid .rolled (.computing pass)) :
    st.RestOk p calm tid .sleeping (.computing pass) := ok

theorem restInv_start (p : Nat) (calm : Prop) (env : Loaded mod.table) :
    RestInv p calm env (.start env) where
  reached := ⟨[], .nil⟩
  window := windowInv_start
  accepted := (⟨by decide, by decide⟩ : Accepted initialPeriod)
  rest := fun tid => by
    show RestOk p calm _ tid (mod.stage (mod.start env.outcomes) tid) .begun
    rw [mod.fresh]
    intro _ none
    cases none
  paced := .nil

/-- A step of a thread between its pass and its sleep, at which time may pass. -/
theorem RestInv.resting (inv : RestInv p calm env st) {tid : Nat} {rest : Rest} {clock : Word}
    (later : st.core.clock ≤ clock)
    (ok : RestOk p calm { st.setRest tid rest with core := { st.core with clock } } tid
      (mod.stage st.core.control tid) rest) :
    RestInv p calm env { st.setRest tid rest with core := { st.core with clock } } where
  reached := inv.reached
  window := by
    have quiet : WindowInv env ⟨st.core.control, st.core.counters, clock, st.core.history ++ []⟩ :=
      inv.window.quiet later rfl (by rw [List.append_nil]) (inv.window.entries_later later)
    rw [List.append_nil] at quiet
    exact quiet
  accepted := inv.accepted
  rest := fun t => by
    by_cases own : t = tid
    · subst own
      show RestOk p calm _ t _ (Function.update st.rest t rest t)
      rw [Function.update_self]
      exact ok
    · show RestOk p calm _ t _ (Function.update st.rest tid rest t)
      rw [Function.update_of_ne own]
      exact (inv.rest t).later later rfl rfl
  paced := inv.paced

/-- What a pass leaves of the clock's words. -/
theorem RestInv.counters_of_roll (inv : RestInv p calm env st) (ρ : Rounding)
    {a : StatAction mod.toStatModule} (work : mod.work st.core.control a.action = .rollBuffer) :
    (st.core.countersAfter ρ env a).stCurrent = a.times.first ∧
      (st.core.countersAfter ρ env a).stOh = a.times.last ∧
      (st.core.countersAfter ρ env a).workingBuf 0 = a.times.first ∧
      (st.core.countersAfter ρ env a).workingBuf (mod.table.counters.length - 1) =
        a.times.last - a.times.first := by
  have pass := inv.window.passInv ρ work
  obtain ⟨_, current, ts⟩ := pass.clock (Nat.zero_lt_of_lt mod.table.one_lt)
  have after : st.core.countersAfter ρ env a = st.core.counters.rollBuffer ρ env.outcomes.ncpus
      mod.table.counters (StatState.readings env a) := by
    rw [StatState.countersAfter, work]
  obtain ⟨cnt, last, restart⟩ := mod.oh
  rw [after] at current ts ⊢
  obtain ⟨oh, word⟩ := rollBuffer_oh last restart
  exact ⟨current, oh, ts, word.trans (by rw [current]; rfl)⟩

/-- A step leaves the rest of other threads alone. -/
theorem restAfter_other {a : StatAction mod.toStatModule} {rest : Nat → Rest}
    (resting : st.restAfter a = some rest) {t : Nat} (other : mod.thread a.action ≠ some t) :
    rest t = st.rest t := by
  unfold restAfter at resting
  split at resting
  · cases resting
    rfl
  · rename_i tid mine
    obtain ⟨_, _, rfl⟩ := Option.map_eq_some_iff.mp resting
    have apart : t ≠ tid := fun same => other (mine.trans (congrArg some same.symm))
    exact Function.update_of_ne apart _ _

theorem restAfter_own {a : StatAction mod.toStatModule} {rest : Nat → Rest}
    (resting : st.restAfter a = some rest) {tid : Nat} (mine : mod.thread a.action = some tid) :
    ∃ after, Rest.after a.times.first (mod.stage st.core.control tid) (st.rest tid) = some after ∧
      rest tid = after := by
  rw [restAfter, mine] at resting
  obtain ⟨after, goes, rfl⟩ := Option.map_eq_some_iff.mp resting
  exact ⟨after, goes, Function.update_self ..⟩

/-- A step that works on no counter takes no sample. -/
theorem newSamples_of_quiet {a : StatAction mod.toStatModule}
    (quiet : mod.work st.core.control a.action = .quiet) : st.newSamples ρ env a = [] := by
  rw [newSamples, quiet]

/-- What a step adds to the samples. -/
theorem newSamples_cases (st : PacedState mod) (ρ : Rounding) (a : StatAction mod.toStatModule) :
    st.newSamples ρ env a = [] ∨ ∃ tid, mod.thread a.action = some tid ∧
      mod.work st.core.control a.action = .rollBuffer ∧
      st.newSamples ρ env a = [⟨tid, (st.core.countersAfter ρ env a).workingBuf⟩] := by
  unfold newSamples
  split
  · rename_i tid work mine
    exact .inr ⟨tid, mine, work, rfl⟩
  · exact .inl rfl

/-- A thread has made a pass. -/
theorem RestInv.own_of_roll (inv : RestInv p calm env st) {a : StatAction mod.toStatModule}
    (timely : Timely mod.table.counters.length env.outcomes.ncpus st.core.clock a.times) {tid : Nat}
    (mine : mod.thread a.action = some tid) (work : mod.work st.core.control a.action = .rollBuffer)
    (counters : st'.core.counters = st.core.countersAfter ρ env a) (clock : st'.core.clock = a.times.last)
    (samples : st'.samples = st.samples ++ st.newSamples ρ env a) : st'.Own tid := by
  obtain ⟨current, oh, ts, word⟩ := inv.counters_of_roll ρ work
  have new : st.newSamples ρ env a = [⟨tid, (st.core.countersAfter ρ env a).workingBuf⟩] := by
    rw [newSamples, work, mine]
  unfold Own
  rw [counters, clock, samples, new, current, oh]
  exact ⟨timely.2.1, BitVec.le_refl _, ⟨tid, _⟩, List.getLast?_concat, rfl, ts, word⟩

/-- The thread whose step it is. -/
theorem RestInv.mover (inv : RestInv p calm env st) {a : StatAction mod.toStatModule} {rest : Nat → Rest}
    {core : StatState mod.toStatModule} (resting : st.restAfter a = some rest)
    (taken : st.core.step ρ env a = some core) {tid : Nat} (mine : mod.thread a.action = some tid) :
    RestOk p calm { st with core, rest, samples := st.samples ++ st.newSamples ρ env a } tid
      (mod.stage core.control tid) (rest tid) := by
  have ok := inv.rest tid
  obtain ⟨timely, step⟩ := Option.ite_none_right_eq_some.mp taken
  obtain ⟨control, moved, rfl⟩ := Option.map_eq_some_iff.mp step
  have later : st.core.clock ≤ a.times.last := BitVec.le_trans timely.1 timely.2.1
  have counters : mod.work st.core.control a.action = .quiet →
      st.core.countersAfter ρ env a = st.core.counters := by
    intro quiet
    rw [StatState.countersAfter, quiet]
  have samples : mod.work st.core.control a.action = .quiet →
      st.samples ++ st.newSamples ρ env a = st.samples := by
    intro quiet
    rw [newSamples_of_quiet quiet, List.append_nil]
  have move := mod.own moved mine
  obtain ⟨after, goes, same⟩ := restAfter_own resting mine
  rw [same]
  generalize st.rest tid = before at ok goes
  generalize mod.stage st.core.control tid = stage at ok goes move
  generalize mod.stage control tid = stage' at move ⊢
  generalize work : mod.work st.core.control a.action = works at move
  cases move with
  | stays =>
    cases goes
    exact ok.later later (counters work) (samples work)
  | rolls left =>
    cases goes
    cases after with
    | computing | asleep => exact ok.elim
    | begun =>
      let next : PacedState mod := { st with
        core := ⟨control, st.core.countersAfter ρ env a, a.times.last,
          st.core.history ++ st.core.entries ρ env a⟩
        rest := rest, samples := st.samples ++ st.newSamples ρ env a }
      have own : next.Own tid := inv.own_of_roll timely mine work rfl rfl rfl
      cases stage' with
      | ready => exact absurd rfl left
      | rolled | sleeping => exact own
  | computes =>
    cases before with
    | begun | asleep => cases goes
    | computing pass =>
      simp only [Rest.after] at goes
      split at goes
      · cases goes
        exact ok.sleeping.later later (counters work) (samples work)
      · cases goes
  | wakes =>
    cases before with
    | begun | computing => cases goes
    | asleep wakeAt =>
      obtain ⟨awake, new⟩ := Option.ite_none_right_eq_some.mp goes
      cases new
      intro x last own
      have last : x ∈ (st.samples ++ st.newSamples ρ env a).getLast? := last
      rw [samples work] at last
      exact (ok x last own).later (awake.trans (BitVec.le_def.mp timely.2.1))

/-- A thread whose step it is not. -/
theorem RestInv.bystander (inv : RestInv p calm env st) {a : StatAction mod.toStatModule}
    {rest : Nat → Rest} {core : StatState mod.toStatModule} (resting : st.restAfter a = some rest)
    (taken : st.core.step ρ env a = some core) {tid : Nat} (other : mod.thread a.action ≠ some tid) :
    RestOk p calm { st with core, rest, samples := st.samples ++ st.newSamples ρ env a } tid
      (mod.stage core.control tid) (rest tid) := by
  have ok := inv.rest tid
  obtain ⟨timely, step⟩ := Option.ite_none_right_eq_some.mp taken
  obtain ⟨control, moved, rfl⟩ := Option.map_eq_some_iff.mp step
  have later : st.core.clock ≤ a.times.last := BitVec.le_trans timely.1 timely.2.1
  rw [mod.others env.initialised inv.reached moved other, restAfter_other resting other]
  by_cases quiet : mod.work st.core.control a.action = .quiet
  · refine ok.later later ?_ ?_
    · show st.core.countersAfter ρ env a = _
      rw [StatState.countersAfter, quiet]
    · show st.samples ++ st.newSamples ρ env a = _
      rw [newSamples_of_quiet quiet, List.append_nil]
  · -- The thread is not on its way, and if a sample was taken then not by it.
    rw [mod.alone env.initialised inv.reached quiet other] at ok ⊢
    generalize st.rest tid = before at ok ⊢
    cases before with
    | computing | asleep => exact ok
    | begun =>
      intro x last own
      have last : x ∈ (st.samples ++ st.newSamples ρ env a).getLast? := last
      rcases newSamples_cases st ρ a with none | ⟨t, mine, _, one⟩
      · rw [none, List.append_nil] at last
        exact (ok x last own).later (BitVec.le_def.mp later)
      · rw [one, List.getLast?_concat] at last
        cases last
        exact absurd (own ▸ mine) other

/-- **A step of the module.** -/
theorem RestInv.module (inv : RestInv p calm env st) {a : StatAction mod.toStatModule}
    {rest : Nat → Rest} {core : StatState mod.toStatModule} (resting : st.restAfter a = some rest)
    (taken : st.core.step ρ env a = some core) :
    RestInv p calm env { st with core, rest, samples := st.samples ++ st.newSamples ρ env a } where
  reached := by
    obtain ⟨_, step⟩ := Option.ite_none_right_eq_some.mp taken
    obtain ⟨control, moved, rfl⟩ := Option.map_eq_some_iff.mp step
    obtain ⟨_, run⟩ := inv.reached
    exact ⟨_, run.snoc moved⟩
  window := inv.window.step taken
  accepted := inv.accepted
  rest := fun tid => by
    by_cases mine : mod.thread a.action = some tid
    · exact inv.mover resting taken mine
    · exact inv.bystander resting taken mine
  paced := by
    obtain ⟨timely, step⟩ := Option.ite_none_right_eq_some.mp taken
    obtain ⟨control, moved, rfl⟩ := Option.map_eq_some_iff.mp step
    show (st.samples ++ st.newSamples ρ env a).IsChain _
    rcases newSamples_cases st ρ a with none | ⟨tid, mine, work, one⟩
    · rw [none, List.append_nil]
      exact inv.paced
    · rw [one]
      refine isChain_concat inv.paced fun x last own => ?_
      have move := mod.own moved mine
      have ok := inv.rest tid
      rw [work] at move
      generalize mod.stage st.core.control tid = stage at move ok
      cases move with
      | rolls =>
        generalize st.rest tid = before at ok
        cases before with
        | computing | asleep => exact ok.elim
        | begun =>
          have ts := (inv.counters_of_roll ρ work).2.2.1
          have begins : st.core.clock.toNat ≤
              ((st.core.countersAfter ρ env a).workingBuf 0).toNat := by
            rw [ts]
            exact BitVec.le_def.mp timely.1
          exact (ok x last own).later begins

/-- **Every step keeps it**, as long as the period is not below `p`, nor raised where that counts. -/
theorem RestInv.step (inv : RestInv p calm env st) {kstrtoul : List Char → Option Word}
    {a : PacedAction mod} (slow : p ≤ st.period.toNat) (steady : calm → ¬ st.Raised a)
    (taken : st.step ρ env kstrtoul a = some st') : RestInv p calm env st' := by
  cases a with
  | storePeriod buf =>
    cases taken
    exact ⟨inv.reached, inv.window, accepted_storePeriod 100 kstrtoul buf _ inv.accepted, inv.rest,
      inv.paced⟩
  | readClock tid =>
    have ok := inv.rest tid
    simp only [PacedState.step] at taken
    split at taken
    · rename_i here held
      cases taken
      rw [here, held] at ok
      refine inv.resting (BitVec.le_refl _) ?_
      rw [here]
      exact ⟨ok, rfl, by simp, by simp⟩
    · rename_i here held
      cases taken
      rw [here, held] at ok
      refine inv.resting (BitVec.le_refl _) ?_
      rw [here]
      exact ⟨ok, rfl, by simp, by simp⟩
    · cases taken
  | readPeriod tid =>
    have ok := inv.rest tid
    simp only [PacedState.step] at taken
    split at taken
    · rename_i pass held
      split at taken
      · cases taken
        rw [held] at ok
        have read' : (∀ v ∈ pass.reads, Accepted v ∧ p ≤ v.toNat) →
            ∀ v ∈ pass.reads ++ [st.period], Accepted v ∧ p ≤ v.toNat := by
          intro read v member
          rcases List.mem_append.mp member with before | last
          · exact read v before
          · rw [List.mem_singleton.mp last]
            exact ⟨inv.accepted, slow⟩
        have quiet' : calm → ∀ first second, pass.reads ++ [st.period] = [first, second] →
            second ≤ first := by
          intro calmly first second reads
          obtain ⟨one, two⟩ : pass.reads = [first] ∧ [st.period] = [second] :=
            List.append_inj' (reads : _ = [first] ++ [second]) rfl
          cases two
          exact BitVec.not_lt.mp fun raised => steady calmly ⟨tid, pass, first, rfl, held, one, raised⟩
        refine inv.resting (BitVec.le_refl _) ?_
        generalize mod.stage st.core.control tid = stage at ok ⊢
        cases stage with
        | ready => exact ok.elim
        | rolled | sleeping =>
          obtain ⟨own, input, read, _⟩ := ok
          exact ⟨own, input, read' read, quiet'⟩
      · cases taken
    · cases taken
  | msleep tid now =>
    have ok := inv.rest tid
    simp only [PacedState.step] at taken
    split at taken
    · rename_i pass here held
      split at taken
      · rename_i tosleep left
        obtain ⟨later, next⟩ := Option.ite_none_right_eq_some.mp taken
        cases next
        rw [here, held] at ok
        refine inv.resting later ?_
        rw [here]
        obtain ⟨⟨forward, past, x, last, _, ts, oh⟩, input, read, quiet⟩ := ok
        intro y last' _
        obtain rfl : x = y := Option.mem_unique last last'
        unfold Pass.left at left
        rw [input] at left
        rw [ts, oh]
        refine (slept_enough left read quiet forward).later (Nat.add_le_add_right ?_ _)
        exact BitVec.le_def.mp (BitVec.le_trans past later)
      · cases taken
    · cases taken
  | module a =>
    simp only [PacedState.step, Option.bind_eq_bind, Option.bind_eq_some_iff, Option.pure_def,
      Option.some.injEq] at taken
    obtain ⟨rest, resting, core, step, rfl⟩ := taken
    exact inv.module resting step

end Invariant

/-! ### Runs -/

section Runs

variable {mod : PacedModule} {ρ : Rounding} {env : Loaded mod.table}
  {kstrtoul : List Char → Option Word} {trace : List (PacedState mod × PacedAction mod)}
  {st : PacedState mod} {p : Nat} {calm : Prop} {front passes back : List Sample} {last : Sample}

theorem restInv_of_run (run : Run (PacedState.step ρ env kstrtoul) (.start env) trace st)
    (slow : p ≤ 101 ∨ ∀ x ∈ trace, p ≤ x.1.period.toNat)
    (steady : calm → ∀ x ∈ trace, ¬ x.1.Raised x.2) : RestInv p calm env st := by
  refine run.invariant (fun st a => (p ≤ 101 ∨ p ≤ st.period.toNat) ∧ (calm → ¬ st.Raised a))
    (restInv_start p calm env) (fun _ _ _ before ok taken => ?_) fun x member =>
      ⟨slow.imp_right fun all => all x member, fun calmly => steady calmly x member⟩
  exact before.step (ok.1.elim (fun low => low.trans before.accepted.1) id) ok.2 taken

/-- Consecutive samples of one sampler. -/
theorem RestInv.stretch (inv : RestInv p calm env st)
    (taken : st.samples = front ++ passes ++ last :: back) (own : ∀ x ∈ passes, x.tid = last.tid) :
    (passes ++ [last]).IsChain fun x y => Due p calm x.ts (mod.ohOf x) y.ts.toNat := by
  have inside : passes ++ [last] <:+: st.samples := ⟨front, back, by simp [taken]⟩
  have same : ∀ x ∈ passes ++ [last], x.tid = last.tid := by
    intro x member
    rcases List.mem_append.mp member with before | here
    · exact own x before
    · rw [List.mem_singleton.mp here]
  have chain := List.IsChain.infix inv.paced inside
  exact chain.imp_of_mem_imp fun x y first second due =>
    due ((same x first).trans (same y second).symm)

/-- **The samples keep a pace, and cost a fifth of the time.** In every run of a module in which `period`
is never below `p`, whatever its passes take and however the writes of `period` fall between their reads,
consecutive samples of one sampler are `p` milliseconds apart. If moreover no pass found a larger period
at its second read than at its first, and none took nine days, five times the overhead that they state is
no more than the time they took, but for four milliseconds each; and so it is at most 21 parts in 101 of
that time. -/
theorem stat_samples_paced (run : Run (PacedState.step ρ env kstrtoul) (.start env) trace st)
    (slow : ∀ x ∈ trace, p ≤ x.1.period.toNat)
    (taken : st.samples = front ++ passes ++ last :: back) (own : ∀ x ∈ passes, x.tid = last.tid)
    {first : Sample} (begins : first ∈ passes.head?) :
    first.ts.toNat + passes.length * (p * 1000000) ≤ last.ts.toNat ∧
    ((∀ x ∈ trace, ¬ x.1.Raised x.2) →
      (∀ x ∈ passes, 5 * ((mod.ohOf x).toNat / 1000000) < 2 ^ 32) →
      first.ts.toNat + 5 * (passes.map fun x => (mod.ohOf x).toNat).sum ≤
          last.ts.toNat + passes.length * 4000000 ∧
        101 * (passes.map fun x => (mod.ohOf x).toNat).sum ≤ 21 * (last.ts.toNat - first.ts.toNat)) := by
  have head : first ∈ (passes ++ [last]).head? := by
    cases passes with
    | nil => cases begins
    | cons x rest => exact begins
  have paced : ∀ {p}, (p ≤ 101 ∨ ∀ x ∈ trace, p ≤ x.1.period.toNat) →
      first.ts.toNat + passes.length * (p * 1000000) ≤ last.ts.toNat := by
    intro p slow
    have chain := (restInv_of_run run slow False.elim).stretch taken own
    have all := sum_le_of_isChain (c := fun _ => p * 1000000) (e := 0)
      (chain.imp fun x y due => due.pace) first head
    simpa using all
  refine ⟨paced (.inr slow), fun steady short => ?_⟩
  have overhead : first.ts.toNat + 5 * (passes.map fun x => (mod.ohOf x).toNat).sum ≤
      last.ts.toNat + passes.length * 4000000 := by
    have inv : RestInv 0 True env st := restInv_of_run run (.inl (Nat.zero_le _)) fun _ => steady
    have chain := inv.stretch taken own
    let cost : Sample → Nat := fun x =>
      if 5 * ((mod.ohOf x).toNat / 1000000) < 2 ^ 32 then 5 * (mod.ohOf x).toNat else 0
    have all := sum_le_of_isChain (f := fun x : Sample => x.ts.toNat) (c := cost) (e := 4000000)
      (chain.imp fun x y due => by
        show _ + cost x ≤ _
        unfold cost
        split
        · exact due.overhead trivial ‹_›
        · have := due.pace
          omega) first head
    rw [List.map_congr_left (g := fun x => 5 * (mod.ohOf x).toNat) fun x member => if_pos (short x member),
      List.sum_map_mul_left] at all
    exact all
  refine ⟨overhead, ?_⟩
  have time := paced (p := 101) (.inl le_rfl)
  omega

end Runs

/-! ### haswellstat and sbstat -/

/-- An entry of a table was changed in nothing that is looked at. -/
theorem elim_update_map {α β : Type} {table : Nat → Option α} {f : α → α} {g : α → β} {none : β}
    (kept : ∀ x, g (f x) = g x) (k i : Nat) :
    (Function.update table k ((table k).map f) i).elim none g = (table i).elim none g := by
  by_cases same : i = k
  · subst same
    rw [Function.update_self]
    cases table i with
    | none => rfl
    | some x => exact kept x
  · rw [Function.update_of_ne same]

def SamplerPc.restStage : SamplerPc → RestStage
  | .unlockSleep => .rolled
  | .msleep => .sleeping
  | _ => .ready

/-- Where a thread is, or would be if there were one. -/
def ControlState.restStage (s : ControlState Unit) (tid : Nat) : RestStage :=
  (s.samplers tid).elim .ready fun th => th.pc.restStage

section Stages

variable {s s' : ControlState Unit} {tid : Nat}

theorem restStage_of_dead (dead : s.alive tid = false) : s.restStage tid = .ready := by
  unfold ControlState.alive at dead
  unfold ControlState.restStage
  cases here : s.samplers tid with
  | none => rfl
  | some th =>
    rw [here, Option.any_some] at dead
    rw [Option.elim_some]
    cases place : th.pc <;> rw [place] at dead <;> first | rfl | cases dead

/-- A thread that is woken or stopped stays where it is on its way. -/
theorem restStage_mapSampler {f : Sampler → Sampler}
    (kept : ∀ th, (f th).pc.restStage = th.pc.restStage) (t : Nat) :
    (s.mapSampler t f).restStage tid = s.restStage tid := elim_update_map kept t tid

theorem restStage_wakeUp (th : Sampler) : th.wakeUp.pc.restStage = th.pc.restStage := by
  unfold Sampler.wakeUp
  by_cases created : th.pc = .created
  · simp [created, SamplerPc.restStage]
  · simp [created]

/-- One client finishes one write before the next. -/
theorem switchInv_of_reachable (reached : Reachable ControlState.step (micstatInit Unit) s) :
    s.SwitchInv := by
  refine reached.invariant ControlState.switchInv_micstatInit fun s a s' before taken =>
    before.step ?_ taken
  cases a with
  | storeCtrl | exit | sampler => trivial
  | client c created =>
    intro call here _ c'
    cases c
    cases c'
    split
    · simp [ControlState.stopping, here, ClientPc.cleared]
    · rw [here]
      rfl

/-- While a client is at the loop of `set_on` or at `kthread_create`, no thread is on its way. -/
theorem restStage_of_creating (inv : s.SwitchInv) (creating : (s.clients ()).creating = true)
    (unstored : ∀ r, s.clients () ≠ .store r) : s.restStage tid = .ready := by
  refine restStage_of_dead (Bool.eq_false_of_not_eq_true fun living => ?_)
  exact unstored _ ((inv.creating () creating).2 tid living)

theorem restStage_others {a : ControlAction Unit}
    (reached : Reachable ControlState.step (micstatInit Unit) s) (taken : s.step a = some s')
    (other : ∀ t, a = .sampler t → t ≠ tid) : s'.restStage tid = s.restStage tid := by
  have inv := switchInv_of_reachable reached
  cases ControlState.move_of_step taken with
  | ignored | enters | locks | switches | unlocks | resets | resetEnds | createFails | stores
  | wakeSkips | wakeFaults | stopFaults | joins => rfl
  | wakes => exact restStage_mapSampler restStage_wakeUp _
  | stops =>
    let f : Sampler → Sampler := fun th => { th with shouldStop := true }.wakeUp
    have kept : ∀ th, (f th).pc.restStage = th.pc.restStage := fun th => restStage_wakeUp _
    exact restStage_mapSampler kept _
  | creates here =>
    have ready : s.restStage tid = .ready :=
      restStage_of_creating inv (by rw [here]; rfl) (by simp [here])
    rw [ready]
    show (Function.update s.samplers s.nextTid (some ⟨.created, false⟩) tid).elim _ _ = RestStage.ready
    by_cases new : tid = s.nextTid
    · rw [new, Function.update_self]
      rfl
    · rw [Function.update_of_ne new]
      exact ready
  | @sampler t th pc _ thread moved =>
    show (Function.update s.samplers t _ tid).elim _ _ = s.restStage tid
    rw [Function.update_of_ne (Ne.symm (other t rfl))]
    rfl

theorem restStage_own (taken : s.step (.sampler tid) = some s') :
    RestMove (s.work (.sampler tid)) (s.restStage tid) (s'.restStage tid) := by
  cases ControlState.move_of_step taken with
  | enters _ _ outside => exact absurd rfl (outside tid)
  | @sampler _ th pc lock thread moved =>
    have after : ({ s.mapSampler tid (fun th => { th with pc }) with ctrlLock := lock } :
        ControlState Unit).restStage tid = pc.restStage := by
      show (Function.update s.samplers tid ((s.samplers tid).map _) tid).elim _ _ = _
      rw [Function.update_self, thread]
      rfl
    rw [after]
    simp only [ControlState.work, ControlState.restStage, thread, Option.any_some, Option.elim_some]
    cases here : th.pc with
    | created | returned | cancelled =>
      rw [here] at moved
      cases moved
    | woken | testStop =>
      cases stop : th.shouldStop <;> rw [here, stop] at moved <;> cases moved <;> exact .stays
    | testOn =>
      cases on : s.on <;> rw [here, on] at moved <;> cases moved <;> exact .stays
    | lock =>
      rw [here] at moved
      obtain ⟨_, new⟩ := Option.ite_none_right_eq_some.mp moved
      cases new
      exact .stays
    | unlockReturn | leaving =>
      rw [here] at moved
      cases moved
      exact .stays
    | rollBuffer =>
      rw [here] at moved
      cases moved
      exact .rolls (by decide)
    | unlockSleep =>
      rw [here] at moved
      cases moved
      exact .computes
    | msleep =>
      rw [here] at moved
      cases moved
      exact .wakes

theorem restStage_alone {a : ControlAction Unit}
    (reached : Reachable ControlState.step (micstatInit Unit) s) (busy : s.work a ≠ .quiet)
    (other : ∀ t, a = .sampler t → t ≠ tid) : s.restStage tid = .ready := by
  have inv := switchInv_of_reachable reached
  cases a with
  | storeCtrl | exit => exact absurd rfl busy
  | client c created =>
    cases here : s.clients () with
    | reset i => exact restStage_of_creating inv (by rw [here]; rfl) (by simp [here])
    | _ => simp [ControlState.work, here] at busy
  | sampler t =>
    refine restStage_of_dead (Bool.eq_false_of_not_eq_true fun living => other t rfl ?_)
    refine inv.oneSampler.unique t tid ?_ living
    simp only [ControlState.work, ne_eq, ite_eq_right_iff, reduceCtorEq, imp_false, not_not,
      Option.any_eq_true, decide_eq_true_eq] at busy
    obtain ⟨th, thread, place⟩ := busy
    simp [ControlState.alive, thread, place, SamplerPc.alive]

end Stages

/-- haswellstat and sbstat. -/
def statPaced : PacedModule where
  toStatModule := statModule
  thread := fun
    | .sampler tid => some tid
    | _ => none
  stage := ControlState.restStage
  oh := ⟨_, rfl, rfl⟩
  fresh := fun _ _ => rfl
  own := fun {_ _ a _ tid} taken mine => by
    cases a with
    | sampler t =>
      cases mine
      exact restStage_own taken
    | storeCtrl | exit | client => cases mine
  others := fun {_ _ _ _ _} _ reached taken other =>
    restStage_others reached taken fun t is same => other (by rw [is, same])
  alone := fun {_ _ _ _} _ reached busy other =>
    restStage_alone reached busy fun t is same => other (by rw [is, same])

/-! ### A pass that takes long -/

/-- haswellstat, loaded as `fiveLoaded`. -/
def fivePaced : Loaded statPaced.table := fiveLoaded

/-- A step of the control in a span of time. -/
def stepIn (first last : Word) (action : ControlAction Unit) : PacedAction statPaced :=
  .module ⟨action, ⟨first, last, fun _ _ => first⟩, fun _ => 0⟩

/-- The module is switched on. Its first pass takes 300 milliseconds of a period of 1000, and the sleep
after it 1200. -/
def sampledHeavily : List (PacedAction statPaced) :=
  List.flatten [
    stepIn 1 1 (.storeCtrl () "on".toList) :: List.replicate 18 (stepIn 1 1 (.client () true)),
    List.replicate 3 (stepIn 1 1 (.sampler 0)), [stepIn 1 300000001 (.sampler 0)],
    [.readClock 0, .readPeriod 0, .readPeriod 0],
    [stepIn 300000001 300000001 (.sampler 0), .msleep 0 300000001],
    List.replicate 5 (stepIn 1500000001 1500000001 (.sampler 0))]

/-- The period is 1000, and no read of it finds more than an earlier one of the pass. -/
def unraised (st : PacedState statPaced) (a : PacedAction statPaced) : Bool :=
  decide (1000 ≤ st.period.toNat) &&
    match a with
    | .readPeriod tid =>
      match st.rest tid with
      | .computing pass => pass.reads.all fun v => decide (st.period ≤ v)
      | _ => true
    | _ => true

theorem not_raised {st : PacedState statPaced} {a : PacedAction statPaced} (check : unraised st a = true) :
    ¬ st.Raised a := by
  rintro ⟨tid, pass, first, rfl, held, reads, raised⟩
  simp only [unraised, held, reads, Bool.and_eq_true, List.all_cons, List.all_nil, Bool.and_true,
    decide_eq_true_eq] at check
  exact absurd raised (BitVec.not_lt.mpr check.2)

theorem stat_samples_paced_heavy :
    ∃ trace st first last,
      Run (PacedState.step .exact fivePaced decimalUlong) (.start fivePaced) trace st ∧
      st.samples = [first, last] ∧ statPaced.ohOf first = 300000000 ∧
      first.ts.toNat + 5 * 300000000 ≤ last.ts.toNat + 4000000 := by
  have done : (exec (guarded unraised (PacedState.step .exact fivePaced decimalUlong)) (.start fivePaced)
      sampledHeavily).any fun st =>
        st.samples.map (fun x => (x.tid, statPaced.ohOf x)) == [(0, 300000000), (0, 0)] := by
    decide +kernel
  obtain ⟨trace, st, run, _, passed⟩ := run_of_exec_any done
  obtain ⟨plain, admitted⟩ := run.of_guarded
  have samples := eq_of_beq passed
  obtain ⟨first, last, taken⟩ : ∃ first last, st.samples = [first, last] :=
    List.length_eq_two.mp (by simpa using congrArg List.length samples)
  rw [taken] at samples
  obtain ⟨⟨tid, oh⟩, tid', _⟩ : (first.tid = 0 ∧ statPaced.ohOf first = 300000000) ∧
      last.tid = 0 ∧ statPaced.ohOf last = 0 := by
    simpa using samples
  have slow : ∀ x ∈ trace, 1000 ≤ x.1.period.toNat := by
    intro x member
    have check := admitted x member
    simp only [unraised, Bool.and_eq_true, decide_eq_true_eq] at check
    exact check.1
  have split : st.samples = [] ++ [first] ++ last :: [] := taken
  have own : ∀ x ∈ [first], x.tid = last.tid := by simp [tid, tid']
  have begins : first ∈ [first].head? := List.head?_cons
  have short : ∀ x ∈ [first], 5 * ((statPaced.ohOf x).toNat / 1000000) < 2 ^ 32 := by
    intro x member
    rw [List.mem_singleton.mp member, oh]
    decide
  have paced := ((stat_samples_paced plain slow split own begins).2
    (fun x member => not_raised (admitted x member)) short).1
  rw [List.map_singleton, List.sum_singleton, oh, List.length_singleton, Nat.one_mul] at paced
  exact ⟨trace, st, first, last, plain, taken, oh, paced⟩

end Xstats.Haswellstat
