/-
**The counters of an xstat node** (`xstat.h`, `xstat.c`, `base_cnt.c`, `hpc_cnt.c`, `msr_cnt.c`).

Every node samples the same table of sixteen counters, `nodeCounters`, in the configuration the
header selects (`XSTAT_IPMI`, `XSTAT_CHAMELEON`). A counter is a record of functions; here each
function pointer is the name of the function it points to, and the functions themselves are defined
where their state is. The `reset` pointers are left out: nothing in xstat calls them.
-/

import Mathlib

namespace Xstats.Xstat

/-- `uint64_t`. -/
abbrev Word := BitVec 64

/-- `uint8_t`, and a byte of a message. -/
abbrev Byte := BitVec 8

/-- One entry of `node->ctxs`, a `void *` in the source: a number that a counter keeps in the
pointer itself, the address of an allocated perf context, or the address of one of the three static
IPMI group contexts. -/
inductive Slot
  | word (value : Word)
  | perf (ctx : Nat)
  | ipmi (group : Fin 3)
  deriving DecidableEq, Repr

/-- The null pointer, which `kzalloc` leaves in every entry. -/
def Slot.null : Slot := .word 0

/-- `(uint64_t) *ctx`. Only entries that hold a number are read this way. -/
def Slot.value : Slot → Word
  | .word value => value
  | _ => 0

/-- `struct perf_event_config`. -/
structure PerfEventConfig where
  type : BitVec 32
  config : BitVec 32
  deriving DecidableEq, Repr

/-- The functions that can stand in the `init` field. -/
inductive CounterInit
  | perfInit
  | xstatIpmiCntInit
  deriving DecidableEq, Repr

/-- The functions that can stand in the `exit` field. -/
inductive CounterExit
  | perfExit
  deriving DecidableEq, Repr

/-- The functions that can stand in the `restart` field. -/
inductive CounterRestart
  | tsRestart
  | intvRestart
  | perfRestart
  | tempRestart
  | energyRestart
  | eunitRestart
  | perflmtRestart
  | xstatIpmiRestart
  deriving DecidableEq, Repr

/-- The functions that can stand in the `scnprintf` field. -/
inductive CounterScnprintf
  | tempScnprintf
  | xstatIpmiScnprintf
  deriving DecidableEq, Repr

/-- What the `data` field points to. -/
inductive CounterData
  | null
  | perf (config : PerfEventConfig)
  | ipmi (group : Fin 3)
  deriving DecidableEq, Repr

/-- `struct xstat_counter`. -/
structure XstatCounter where
  name : String
  init : Option CounterInit
  exit : Option CounterExit
  restart : CounterRestart
  scnprintf : Option CounterScnprintf
  data : CounterData
  deriving DecidableEq, Repr

/-- `__XSTAT_CNT`, for the counters that have neither an `init` nor an `exit`. -/
def xstatCnt (name : String) (restart : CounterRestart)
    (scnprintf : Option CounterScnprintf) : XstatCounter :=
  { name, init := none, exit := none, restart, scnprintf, data := .null }

def tsCounter : XstatCounter := xstatCnt "ts" .tsRestart none
def intvCounter : XstatCounter := xstatCnt "intv" .intvRestart none

/-- `PERF_COUNTER`, with the raw event of `PERF_RAW_CONFIG` (`PERF_TYPE_RAW` is 4). -/
def perfCounter (name : String) (code : BitVec 32) : XstatCounter :=
  { name, init := some .perfInit, exit := some .perfExit, restart := .perfRestart,
    scnprintf := none, data := .perf { type := 4, config := code } }

def cycCounter : XstatCounter := perfCounter "cyc" 0x003c
def instCounter : XstatCounter := perfCounter "inst" 0x00c0
def llcrefCounter : XstatCounter := perfCounter "llcref" 0x4f2e
def llcmissCounter : XstatCounter := perfCounter "llcmiss" 0x412e
def brCounter : XstatCounter := perfCounter "br" 0x00c4
def brmissCounter : XstatCounter := perfCounter "brmiss" 0x00c5
def l2linCounter : XstatCounter := perfCounter "l2lin" 0x07f4

def tempCounter : XstatCounter := xstatCnt "temp" .tempRestart (some .tempScnprintf)
def energyCounter : XstatCounter := xstatCnt "energy" .energyRestart none
def eunitCounter : XstatCounter := xstatCnt "eunit" .eunitRestart none
def perflmtCounter : XstatCounter := xstatCnt "perflmt" .perflmtRestart none

/-- `__IPMI_CNT`. -/
def ipmiCnt (group : Fin 3) : XstatCounter :=
  { name := "ipmi", init := some .xstatIpmiCntInit, exit := none, restart := .xstatIpmiRestart,
    scnprintf := some .xstatIpmiScnprintf, data := .ipmi group }

/-- `XSTAT_NCNT`, the length of `node_counters`. -/
abbrev xstatNcnt : Nat := 16

instance neZero_xstatNcnt : NeZero xstatNcnt := ⟨by decide⟩

/-- `node_counters`. -/
def nodeCounters : Fin xstatNcnt → XstatCounter :=
  ![tsCounter, intvCounter, cycCounter, instCounter, llcrefCounter, llcmissCounter, brCounter,
    brmissCounter, l2linCounter, tempCounter, energyCounter, eunitCounter, perflmtCounter,
    ipmiCnt 0, ipmiCnt 1, ipmiCnt 2]

/-- One sample: a word for each counter. -/
abbrev Record := Fin xstatNcnt → Word

/-- The timestamp of a sample. -/
def Record.ts (record : Record) : Word := record 0

/-- The interval of a sample. -/
def Record.intv (record : Record) : Word := record 1

/-- A counter keeps a context of its own exactly if it creates it: the perf counters allocate one,
the IPMI counters point to a static one. -/
theorem exit_iff_perfInit (i : Fin xstatNcnt) :
    (nodeCounters i).exit = some .perfExit ↔ (nodeCounters i).init = some .perfInit := by
  revert i
  decide

end Xstats.Xstat
