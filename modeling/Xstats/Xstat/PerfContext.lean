/-
**The perf contexts of xstat** (`hpc_cnt.c`).

`perf_init` allocates a context with an entry for each CPU that the node's mask holds at that moment,
and fills the entries in the order of the CPUs; where an event cannot be created the entry stays without
one. `perf_restart` and `perf_exit` go through the entries. Their loops are here as they run when the
mask still holds as many CPUs as it did; what becomes of them when it does not is a matter of its own.

What an event is, is left open: `create` says what the kernel makes of a request, and `read` what it
returns of an event.

* `events_perfInit`: what `perf_init` leaves in the entries.
* `created_perfRestart`: `perf_restart` keeps the events.
-/

import Xstats.Perf
import Xstats.Xstat.Counters

namespace Xstats.Xstat

/-- `struct perf_counter_per_cpu`. -/
structure PerfCounterPerCpu (ε : Type) where
  value : PerfEventValue
  event : Option ε
  deriving DecidableEq, Repr

/-- An entry as `kzalloc` leaves it. -/
def PerfCounterPerCpu.cleared (ε : Type) : PerfCounterPerCpu ε := ⟨.zero, none⟩

/-- `struct perf_counter_context`, without the pointer to the node's mask. -/
structure PerfCounterContext (ε : Type) where
  config : PerfEventConfig
  events : List (PerfCounterPerCpu ε)
  deriving DecidableEq, Repr

/-- A `struct cpumask`, of CPUs below `nr_cpu_ids`. -/
abbrev CpuMask (nrCpuIds : Nat) := Finset (Fin nrCpuIds)

/-- The CPUs of a mask, in the order of `for_each_cpu_mask`. -/
def CpuMask.cpus {nrCpuIds : Nat} (mask : CpuMask nrCpuIds) : List (Fin nrCpuIds) :=
  (List.finRange nrCpuIds).filter fun cpu => cpu ∈ mask

/-- `cpumask_weight`. -/
def CpuMask.weight {nrCpuIds : Nat} (mask : CpuMask nrCpuIds) : Nat := mask.card

theorem CpuMask.mem_cpus {nrCpuIds : Nat} {mask : CpuMask nrCpuIds} {cpu : Fin nrCpuIds} :
    cpu ∈ mask.cpus ↔ cpu ∈ mask := by
  simp [cpus]

theorem CpuMask.nodup_cpus {nrCpuIds : Nat} (mask : CpuMask nrCpuIds) : mask.cpus.Nodup :=
  (List.nodup_finRange _).filter _

theorem CpuMask.toFinset_cpus {nrCpuIds : Nat} (mask : CpuMask nrCpuIds) :
    mask.cpus.toFinset = mask := by
  ext cpu
  rw [List.mem_toFinset, mem_cpus]

theorem CpuMask.length_cpus {nrCpuIds : Nat} (mask : CpuMask nrCpuIds) :
    mask.cpus.length = mask.weight := by
  rw [weight, ← List.toFinset_card_of_nodup mask.nodup_cpus, toFinset_cpus]

/-- An event that the kernel created for a CPU, for the context of a number. -/
structure KernelEvent (nrCpuIds : Nat) where
  ctx : Nat
  cpu : Fin nrCpuIds
  deriving DecidableEq, Repr

/-- `perf_event_create_kernel_counter` on a CPU, where `creates` says on which it succeeds. -/
def KernelEvent.create {nrCpuIds : Nat} (ctx : Nat) (creates : Fin nrCpuIds → Bool)
    (cpu : Fin nrCpuIds) : Option (KernelEvent nrCpuIds) :=
  if creates cpu then some ⟨ctx, cpu⟩ else none

namespace PerfCounterContext

variable {ε : Type} {nrCpuIds : Nat}

/-- The loop of `perf_init` over the CPUs that are left, from entry `i` on. -/
def createEvents (create : Fin nrCpuIds → Option ε) :
    List (Fin nrCpuIds) → Nat → List (PerfCounterPerCpu ε) → List (PerfCounterPerCpu ε)
  | [], _, events => events
  | cpu :: rest, i, events =>
    createEvents create rest (i + 1) (events.modify i fun entry => { entry with event := create cpu })

/-- `perf_init`. -/
def perfInit (create : PerfEventConfig → Fin nrCpuIds → Option ε) (mask : CpuMask nrCpuIds)
    (config : PerfEventConfig) : PerfCounterContext ε :=
  let nevents := mask.weight
  { config, events := createEvents (create config) mask.cpus 0
      (List.replicate nevents (.cleared ε)) }

/-- The body of the loop in `perf_restart`: the entry it leaves, and what it adds to the total. -/
def restartEntry (ρ : Rounding) (read : ε → PerfEventValue) (entry : PerfCounterPerCpu ε) :
    PerfCounterPerCpu ε × Word :=
  match entry.event with
  | some event => ({ entry with value := read event }, entry.value.scaled ρ (read event))
  | none => (entry, 0)

/-- `perf_restart`, through all the entries: the context it leaves and what it returns. -/
def perfRestart (ρ : Rounding) (read : ε → PerfEventValue) (ctx : PerfCounterContext ε) :
    PerfCounterContext ε × Word :=
  ({ ctx with events := ctx.events.map fun entry => (restartEntry ρ read entry).1 },
    (ctx.events.map fun entry => (restartEntry ρ read entry).2).sum)

/-- The events of a context, in the order of their entries. -/
def created (ctx : PerfCounterContext ε) : List ε := ctx.events.filterMap fun entry => entry.event

theorem createEvents_eq (create : Fin nrCpuIds → Option ε) (filled : List (PerfCounterPerCpu ε))
    (cpus : List (Fin nrCpuIds)) :
    createEvents create cpus filled.length (filled ++ List.replicate cpus.length (.cleared ε)) =
      filled ++ cpus.map fun cpu => ⟨.zero, create cpu⟩ := by
  induction cpus generalizing filled with
  | nil => simp [createEvents]
  | cons cpu rest ih =>
    have entry : (filled ++ List.replicate (rest.length + 1) (PerfCounterPerCpu.cleared ε)).modify
        filled.length (fun entry => { entry with event := create cpu }) =
          (filled ++ [⟨.zero, create cpu⟩]) ++ List.replicate rest.length (.cleared ε) := by
      rw [List.replicate_succ, List.modify_eq_set_getElem?]
      simp [PerfCounterPerCpu.cleared]
    have step := ih (filled ++ [⟨.zero, create cpu⟩])
    rw [List.length_append, List.length_singleton] at step
    rw [createEvents, List.length_cons, entry, step]
    simp

/-- **`perf_init`** leaves an entry for each CPU of the mask, in their order. -/
theorem events_perfInit (create : PerfEventConfig → Fin nrCpuIds → Option ε)
    (mask : CpuMask nrCpuIds) (config : PerfEventConfig) :
    (perfInit create mask config).events =
      mask.cpus.map fun cpu => ⟨.zero, create config cpu⟩ := by
  have filled := createEvents_eq (create config) [] mask.cpus
  rwa [CpuMask.length_cpus] at filled

theorem length_perfInit (create : PerfEventConfig → Fin nrCpuIds → Option ε)
    (mask : CpuMask nrCpuIds) (config : PerfEventConfig) :
    (perfInit create mask config).events.length = mask.weight := by
  rw [events_perfInit, List.length_map, CpuMask.length_cpus]

theorem created_perfInit (create : PerfEventConfig → Fin nrCpuIds → Option ε)
    (mask : CpuMask nrCpuIds) (config : PerfEventConfig) :
    (perfInit create mask config).created = mask.cpus.filterMap (create config) := by
  rw [created, events_perfInit, List.filterMap_map]
  rfl

@[simp] theorem event_restartEntry (ρ : Rounding) (read : ε → PerfEventValue)
    (entry : PerfCounterPerCpu ε) : (restartEntry ρ read entry).1.event = entry.event := by
  unfold restartEntry
  split <;> rfl

theorem created_perfRestart (ρ : Rounding) (read : ε → PerfEventValue) (ctx : PerfCounterContext ε) :
    (ctx.perfRestart ρ read).1.created = ctx.created := by
  simp only [created, perfRestart, List.filterMap_map]
  exact List.filterMap_congr fun entry _ => event_restartEntry ρ read entry

end PerfCounterContext

end Xstats.Xstat
