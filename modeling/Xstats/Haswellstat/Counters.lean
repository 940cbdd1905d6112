/-
**The counters of haswellstat, sbstat and micstat** (`stat.c`, `sbstat.c`, `micstat.c`).

The three modules have one `struct micstat_counter` and differ in their tables. A counter that counts
hardware events has an `init` and an `exit`, which create and release one event for each CPU; the
others have neither. No counter of haswellstat or sbstat has a `scnprintf` of its own.
-/

import Mathlib.Data.Fintype.Basic

namespace Xstats.Haswellstat

/-- `uint64_t`. -/
abbrev Word := BitVec 64

/-- The functions that can stand in the `init` field. -/
inductive CounterInit
  | perfInit
  deriving DecidableEq, Repr

/-- The functions that can stand in the `exit` field. -/
inductive CounterExit
  | perfExit
  deriving DecidableEq, Repr

/-- The functions that can stand in the `restart` field. -/
inductive CounterRestart
  | tsRestart
  | intvRestart
  | ohRestart
  | perfRestart
  | tempRestart
  | temp2Restart
  | powerRestart
  | voltRestart
  | freqRestart
  deriving DecidableEq, Repr

/-- The functions that can stand in the `reset` field. -/
inductive CounterReset
  | tsReset
  | noopReset
  | perfReset
  deriving DecidableEq, Repr

/-- `struct micstat_counter`, as far as the tables differ in it. -/
structure MicstatCounter where
  name : String
  init : Option CounterInit
  restart : CounterRestart
  reset : CounterReset
  exit : Option CounterExit
  deriving DecidableEq, Repr

/-- `__MIC_COUNTER`. -/
def micCounter (name : String) (restart : CounterRestart) (reset : CounterReset) : MicstatCounter :=
  { name, init := none, restart, reset, exit := none }

/-- `__PERF_COUNTER`. -/
def perfCounter (name : String) : MicstatCounter :=
  { name, init := some .perfInit, restart := .perfRestart, reset := .perfReset, exit := some .perfExit }

/-- `counters` of haswellstat and sbstat, where neither `MICSTAT_JIF` nor `MICSTAT_CYCLES` is
defined. -/
def statCounters : List MicstatCounter :=
  [micCounter "ts" .tsRestart .tsReset, micCounter "intv" .intvRestart .noopReset,
    micCounter "temp" .tempRestart .noopReset, perfCounter "cyc", perfCounter "inst",
    perfCounter "llcref", perfCounter "llcmiss", perfCounter "br", perfCounter "brmiss",
    perfCounter "l2lin", micCounter "oh" .ohRestart .noopReset]

/-- `counters` of micstat. -/
def micCounters : List MicstatCounter :=
  [micCounter "ts" .tsRestart .tsReset, micCounter "intv" .intvRestart .noopReset,
    micCounter "freq" .freqRestart .noopReset, micCounter "temp" .tempRestart .noopReset,
    micCounter "temp2" .temp2Restart .noopReset, micCounter "power" .powerRestart .noopReset,
    micCounter "volt" .voltRestart .noopReset, perfCounter "cyc", perfCounter "inst",
    perfCounter "instv", perfCounter "fp", perfCounter "fpv", perfCounter "fpa", perfCounter "brm",
    perfCounter "l1dr", perfCounter "l1dw", perfCounter "l1dm", perfCounter "l1im",
    perfCounter "l2rm", perfCounter "mcyc", perfCounter "fes", perfCounter "fps",
    micCounter "oh" .ohRestart .noopReset]

end Xstats.Haswellstat
