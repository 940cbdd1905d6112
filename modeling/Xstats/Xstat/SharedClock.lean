/-
**The time that the samplers share** (`get_time`).

`get_time` has the kernel fill a `static struct timespec`, of which there is one for the samplers of all
nodes, and converts it. No lock is held meanwhile: between the stores of the two fields and their loads
the thread of another node may store fields of its own.

Here the module runs with a call of `get_time` in pieces: the kernel reads the clock, stores `tv_sec` and
then `tv_nsec`, and `timespec_to_ns` loads them one after the other. The clock itself does not go back.

* `SharedInv.step`: while a field that a `ts_restart` has still to load is overwritten only by one of the
  same second, and `tv_nsec` by no smaller one, what it gets is no earlier than its own reading.
* `timestamps_chain`: so the samples of a node follow each other, in every run that meets the condition.
* `timestamps_go_back`: with two nodes one may get the time that the other read before.
-/

import Xstats.Xstat.Timestamps

namespace Xstats.Xstat

open Transition ModuleState

/-! ### The struct -/

/-- `struct timespec`. -/
structure Timespec where
  tvSec : Word
  tvNsec : Word
  deriving DecidableEq, Repr

namespace Timespec

/-- `NSEC_PER_SEC`. -/
def nsecPerSec : Word := 1000000000

/-- `timespec_to_ns`. -/
def toNs (ts : Timespec) : Word := ts.tvSec * nsecPerSec + ts.tvNsec

/-- What `do_posix_clock_monotonic_gettime` stores of a time in nanoseconds. -/
def ofNs (now : Word) : Timespec := ⟨now / nsecPerSec, now % nsecPerSec⟩

theorem udiv_mul_add_umod (now unit : Word) : now / unit * unit + now % unit = now := by
  apply BitVec.eq_of_toNat_eq
  have split := Nat.div_add_mod' now.toNat unit.toNat
  simp only [BitVec.toNat_add, BitVec.toNat_mul, BitVec.toNat_udiv, BitVec.toNat_umod]
  rw [Nat.mod_add_mod, split, Nat.mod_eq_of_lt now.isLt]

/-- The conversion gives back the time that was stored. -/
theorem toNs_ofNs (now : Word) : (ofNs now).toNs = now := udiv_mul_add_umod now nsecPerSec

/-- A time of the same second, and no earlier. -/
def SameSecond (own now : Word) : Prop := (ofNs now).tvSec = (ofNs own).tvSec ∧ own ≤ now

instance (own now : Word) : Decidable (SameSecond own now) := inferInstanceAs (Decidable (_ ∧ _))

end Timespec

/-! ### A call of `get_time` -/

/-- How far a thread is in `get_time`, with the time that the kernel read for it. -/
inductive GetTimePc
  | outside
  /-- The kernel has read the clock. -/
  | read (now : Word)
  | storedSec (now : Word)
  | storedNsec (now : Word)
  /-- In `timespec_to_ns`, which has loaded `tv_sec`. -/
  | loadedSec (now sec : Word)
  deriving DecidableEq, Repr

namespace GetTimePc

/-- The time that the kernel read. -/
def reading : GetTimePc → Option Word
  | .outside => none
  | .read now | .storedSec now | .storedNsec now | .loadedSec now _ => some now

/-- The time whose `tv_sec` the thread has stored, and has still to load. -/
def secInUse : GetTimePc → Option Word
  | .storedSec now | .storedNsec now => some now
  | _ => none

/-- The time whose `tv_nsec` the thread has stored, and has still to load. -/
def nsecInUse : GetTimePc → Option Word
  | .storedNsec now | .loadedSec now _ => some now
  | _ => none

end GetTimePc

/-- The places where a thread calls `get_time`: in `ts_restart`, and after `roll_buffer`. -/
def SamplerPc.callsGetTime : SamplerPc → Bool
  | .restart i => (nodeCounters i).restart = .tsRestart
  | .afterRoll => true
  | _ => false

/-! ### The module with its clock -/

/-- The module, the time that the clock shows, the struct, and the calls of `get_time` under way. -/
structure ClockState where
  module : ModuleState
  clock : Word
  timespec : Timespec
  getTime : Nat → GetTimePc

inductive ClockAction
  /-- A step of the module outside `get_time`. -/
  | module (a : ModuleAction)
  /-- The kernel reads the clock, which shows `now`. -/
  | readClock (tid : Nat) (now : Word)
  | storeSec (tid : Nat)
  | storeNsec (tid : Nat)
  | loadSec (tid : Nat)
  /-- `timespec_to_ns` loads `tv_nsec`, and `get_time` returns to the thread, which goes on. -/
  | loadNsec (tid : Nat) (input : Input)

namespace ClockState

/-- The state that `xstat_init` leaves. -/
def start (maxNumnodes : Nat) (nodeOnline : Nat → Bool) (clock : Word) : ClockState :=
  { module := xstatInit maxNumnodes nodeOnline, clock := clock, timespec := ⟨0, 0⟩
    getTime := fun _ => .outside }

def setGetTime (st : ClockState) (tid : Nat) (pc : GetTimePc) : ClockState :=
  { st with getTime := Function.update st.getTime tid pc }

/-- The thread is where it calls `get_time`. -/
def calls (st : ClockState) (tid : Nat) : Bool :=
  (st.module.samplers tid).any fun th => th.pc.callsGetTime

/-- The action is what a thread does with what `get_time` returns. -/
def uses (st : ClockState) : ModuleAction → Bool
  | .sampler tid _ => st.calls tid
  | _ => false

def step (maxNumnodes : Nat) (st : ClockState) : ClockAction → Option ClockState
  | .module a =>
    if st.uses a then none
    else (st.module.step maxNumnodes a).map fun module => { st with module }
  | .readClock tid now =>
    if st.calls tid ∧ st.getTime tid = .outside ∧ st.clock ≤ now then
      some ({ st with clock := now }.setGetTime tid (.read now))
    else none
  | .storeSec tid =>
    match st.getTime tid with
    | .read now =>
      some ({ st with timespec := { st.timespec with tvSec := (Timespec.ofNs now).tvSec } }.setGetTime
        tid (.storedSec now))
    | _ => none
  | .storeNsec tid =>
    match st.getTime tid with
    | .storedSec now =>
      some ({ st with timespec := { st.timespec with tvNsec := (Timespec.ofNs now).tvNsec } }.setGetTime
        tid (.storedNsec now))
    | _ => none
  | .loadSec tid =>
    match st.getTime tid with
    | .storedNsec now => some (st.setGetTime tid (.loadedSec now st.timespec.tvSec))
    | _ => none
  | .loadNsec tid input =>
    match st.getTime tid with
    | .loadedSec _ sec =>
      let now := Timespec.toNs ⟨sec, st.timespec.tvNsec⟩
      (st.module.step maxNumnodes (.sampler tid { input with now := now })).map fun module =>
        { st with module }.setGetTime tid .outside
    | _ => none

end ClockState

/-- The steps, one constructor for each. -/
inductive ClockMove (maxNumnodes : Nat) (st : ClockState) : ClockAction → ClockState → Prop
  | module {a module} (other : st.uses a = false) (taken : st.module.step maxNumnodes a = some module) :
      ClockMove maxNumnodes st (.module a) { st with module }
  | readClock {tid now} (calls : st.calls tid = true) (outside : st.getTime tid = .outside)
      (later : st.clock ≤ now) :
      ClockMove maxNumnodes st (.readClock tid now)
        ({ st with clock := now }.setGetTime tid (.read now))
  | storeSec {tid now} (here : st.getTime tid = .read now) :
      ClockMove maxNumnodes st (.storeSec tid)
        ({ st with timespec := { st.timespec with tvSec := (Timespec.ofNs now).tvSec } }.setGetTime
          tid (.storedSec now))
  | storeNsec {tid now} (here : st.getTime tid = .storedSec now) :
      ClockMove maxNumnodes st (.storeNsec tid)
        ({ st with timespec := { st.timespec with tvNsec := (Timespec.ofNs now).tvNsec } }.setGetTime
          tid (.storedNsec now))
  | loadSec {tid now} (here : st.getTime tid = .storedNsec now) :
      ClockMove maxNumnodes st (.loadSec tid) (st.setGetTime tid (.loadedSec now st.timespec.tvSec))
  | loadNsec {tid now sec input module} (here : st.getTime tid = .loadedSec now sec)
      (taken : st.module.step maxNumnodes (.sampler tid
        { input with now := Timespec.toNs ⟨sec, st.timespec.tvNsec⟩ }) = some module) :
      ClockMove maxNumnodes st (.loadNsec tid input) ({ st with module }.setGetTime tid .outside)

theorem clockMove_of_step {maxNumnodes : Nat} {st st' : ClockState} {a : ClockAction}
    (taken : st.step maxNumnodes a = some st') : ClockMove maxNumnodes st a st' := by
  cases a with
  | module a =>
    obtain ⟨other, rest⟩ := Option.ite_none_left_eq_some.mp taken
    obtain ⟨module, step, rfl⟩ := Option.map_eq_some_iff.mp rest
    exact .module (Bool.eq_false_iff.mpr other) step
  | readClock tid now =>
    obtain ⟨⟨calls, outside, later⟩, step⟩ := Option.ite_none_right_eq_some.mp taken
    cases step
    exact .readClock calls outside later
  | storeSec tid =>
    simp only [ClockState.step] at taken
    split at taken
    · cases taken
      exact .storeSec ‹_›
    · cases taken
  | storeNsec tid =>
    simp only [ClockState.step] at taken
    split at taken
    · cases taken
      exact .storeNsec ‹_›
    · cases taken
  | loadSec tid =>
    simp only [ClockState.step] at taken
    split at taken
    · cases taken
      exact .loadSec ‹_›
    · cases taken
  | loadNsec tid input =>
    simp only [ClockState.step] at taken
    split at taken
    · obtain ⟨module, step, rfl⟩ := Option.map_eq_some_iff.mp taken
      exact .loadNsec ‹_› step
    · cases taken

/-! ### The condition -/

namespace ClockState

/-- By the options: there is no end of words to try. -/
instance decidableReadings {p : Word → Word → Prop} [∀ now own, Decidable (p now own)]
    (first second : Option Word) : Decidable (∀ now ∈ first, ∀ own ∈ second, p now own) :=
  @Option.decidableForallMem _ _ (fun _ => Option.decidableForallMem second) first

/-- The thread is in a `ts_restart`. -/
def stamping (st : ClockState) (tid : Nat) : Bool :=
  (st.module.samplers tid).any fun th => th.pc == .restart 0

/-- Where the thread overwrites a `tv_sec` that a `ts_restart` has still to load, it stores the same. -/
def SameSec (st : ClockState) (tid : Nat) : Prop :=
  ∀ other < st.module.nextTid, st.stamping other = true →
    ∀ now ∈ (st.getTime tid).reading, ∀ own ∈ (st.getTime other).secInUse,
      (Timespec.ofNs now).tvSec = (Timespec.ofNs own).tvSec

instance (st : ClockState) (tid : Nat) : Decidable (st.SameSec tid) :=
  inferInstanceAs (Decidable (∀ other < _, _))

/-- Where it overwrites a `tv_nsec` that a `ts_restart` has still to load, it stores that of a time of
the same second, and no earlier one. -/
def LaterNsec (st : ClockState) (tid : Nat) : Prop :=
  ∀ other < st.module.nextTid, st.stamping other = true →
    ∀ now ∈ (st.getTime tid).reading, ∀ own ∈ (st.getTime other).nsecInUse,
      Timespec.SameSecond own now

instance (st : ClockState) (tid : Nat) : Decidable (st.LaterNsec tid) :=
  inferInstanceAs (Decidable (∀ other < _, _))

/-- The step takes nothing from a `ts_restart` of another thread that it has still to load. -/
def KeepsReadings (st : ClockState) : ClockAction → Prop
  | .storeSec tid => st.SameSec tid
  | .storeNsec tid => st.LaterNsec tid
  | _ => True

instance (st : ClockState) : (a : ClockAction) → Decidable (st.KeepsReadings a)
  | .storeSec tid => inferInstanceAs (Decidable (st.SameSec tid))
  | .storeNsec tid => inferInstanceAs (Decidable (st.LaterNsec tid))
  | .module _ | .readClock _ _ | .loadSec _ | .loadNsec _ _ => .isTrue trivial

end ClockState

/-! ### The invariant -/

/-- What `tv_nsec` may be for a thread that read the clock at `own`: that of a time of the same second,
no earlier, which the clock has shown. -/
def NsecOk (own clock nsec : Word) : Prop :=
  ∃ t, Timespec.SameSecond own t ∧ t ≤ clock ∧ (Timespec.ofNs t).tvNsec = nsec

theorem NsecOk.later {own clock clock' nsec : Word} (ok : NsecOk own clock nsec)
    (later : clock ≤ clock') : NsecOk own clock' nsec := by
  obtain ⟨t, same, high, part⟩ := ok
  exact ⟨t, same, BitVec.le_trans high later, part⟩

/-- What a `ts_restart` makes of it. -/
theorem NsecOk.toNs {own clock sec nsec : Word} (ok : NsecOk own clock nsec)
    (same : sec = (Timespec.ofNs own).tvSec) :
    own ≤ Timespec.toNs ⟨sec, nsec⟩ ∧ Timespec.toNs ⟨sec, nsec⟩ ≤ clock := by
  obtain ⟨t, ⟨second, low⟩, high, rfl⟩ := ok
  have value : Timespec.toNs ⟨sec, (Timespec.ofNs t).tvNsec⟩ = t := by
    rw [same, ← second]
    exact Timespec.toNs_ofNs t
  rw [value]
  exact ⟨low, high⟩

/-- What holds of the struct while the thread of the node is in a `ts_restart`. -/
def StampOk (clock : Word) (timespec : Timespec) (node : XstatNode) : GetTimePc → Prop
  | .outside => True
  | .read own => node.workingBuf 0 ≤ own
  | .storedSec own => node.workingBuf 0 ≤ own ∧ timespec.tvSec = (Timespec.ofNs own).tvSec
  | .storedNsec own => node.workingBuf 0 ≤ own ∧ timespec.tvSec = (Timespec.ofNs own).tvSec ∧
    NsecOk own clock timespec.tvNsec
  | .loadedSec own sec => node.workingBuf 0 ≤ own ∧ sec = (Timespec.ofNs own).tvSec ∧
    NsecOk own clock timespec.tvNsec

/-- The module, the timestamps up to the time that the clock shows, and the calls of `get_time`. -/
structure SharedInv (maxNumnodes : Nat) (st : ClockState) : Prop where
  ctrl : CtrlInv maxNumnodes st.module
  read : ReadInv st.module
  chained : ClockInv st.module
  forward : ForwardInv st.clock.toNat st.module
  calling : ∀ tid, st.getTime tid ≠ .outside → st.calls tid = true
  shown : ∀ tid, ∀ own ∈ (st.getTime tid).reading, own ≤ st.clock
  stamps : ∀ tid th node, st.module.samplers tid = some th → th.pc = .restart 0 →
    st.module.xstatNodes th.nid = some node → StampOk st.clock st.timespec node (st.getTime tid)

theorem sharedInv_start (maxNumnodes : Nat) (nodeOnline : Nat → Bool) (clock : Word) :
    SharedInv maxNumnodes (.start maxNumnodes nodeOnline clock) where
  ctrl := ctrlInv_xstatInit maxNumnodes nodeOnline
  read := readInv_xstatInit maxNumnodes nodeOnline
  chained := clockInv_xstatInit maxNumnodes nodeOnline
  forward := forwardInv_xstatInit _ maxNumnodes nodeOnline
  calling := fun _ inside => absurd rfl inside
  shown := fun _ _ member => by cases member
  stamps := fun _ _ _ thread => by cases thread

section Steps

variable {maxNumnodes : Nat}

/-- A step of the module that is not the thread's: a living thread stays where it is, and its node's
words as they are. -/
theorem place_kept {s s' : ModuleState} {a : ModuleAction} (inv : CtrlInv maxNumnodes s)
    (taken : s.step maxNumnodes a = some s') {tid : Nat} {th : Sampler}
    (thread : s.samplers tid = some th) (alive : th.pc.Alive) (other : ∀ input, a ≠ .sampler tid input) :
    ∃ th', s'.samplers tid = some th' ∧ th'.nid = th.nid ∧ th'.pc = th.pc ∧
      ∀ node', s'.xstatNodes th.nid = some node' →
        ∃ node, s.xstatNodes th.nid = some node ∧ node'.workingBuf = node.workingBuf := by
  by_cases moves : ∃ t input, a = .sampler t input
  · obtain ⟨t, input, rfl⟩ := moves
    cases move_of_step taken with
    | @sampler _ _ mover after found move =>
      have apart : tid ≠ t := by
        rintro rfl
        exact other input rfl
      have home : th.nid ≠ mover.nid := fun same =>
        apart (inv.alive_unique thread found alive move.kept.alive same)
      refine ⟨th, (Function.update_of_ne apart ..).trans thread, rfl, rfl, fun node' there => ?_⟩
      change (s.setNode mover.nid after.node).xstatNodes th.nid = some node' at there
      rw [xstatNodes_setNode, if_neg home] at there
      exact ⟨node', there, rfl⟩
  · have none : ∀ t input, a ≠ .sampler t input := fun t input is => moves ⟨t, input, is⟩
    have nodes : ∀ node', s'.xstatNodes th.nid = some node' →
        ∃ node, s.xstatNodes th.nid = some node ∧ node'.workingBuf = node.workingBuf := by
      intro node' there
      obtain ⟨node, before, move⟩ := nodeMove_of_step taken none there
      exact ⟨node, before, move.sameContexts.2⟩
    cases move_of_step taken with
    | ignored | last _ | startBegins | stopBegins | startSkips | startEnds | stopSkips | stopFaults
    | stopEnds | startFails | joins | reset | stat => exact ⟨th, thread, rfl, rfl, nodes⟩
    | starts =>
      have born : tid ≠ s.nextTid := by
        rintro rfl
        rw [inv.unborn _ le_rfl] at thread
        cases thread
      exact ⟨th, (Function.update_of_ne born ..).trans thread, rfl, rfl, nodes⟩
    | @stops i t node th' _ _ _ found =>
      by_cases mine : tid = t
      · subst mine
        rw [thread] at found
        cases found
        exact ⟨_, Function.update_self .., rfl, rfl, nodes⟩
      · exact ⟨th, (Function.update_of_ne mine ..).trans thread, rfl, rfl, nodes⟩
    | sampler => exact absurd rfl (none _ _)

theorem alive_of_callsGetTime {pc : SamplerPc} (calls : pc.callsGetTime = true) : pc.Alive := by
  constructor
  · rintro rfl
    cases calls
  · rintro rfl
    cases calls

variable {st st' : ClockState}

/-- The thread that is in `get_time`. -/
theorem SharedInv.caller (inv : SharedInv maxNumnodes st) {tid : Nat}
    (inside : st.getTime tid ≠ .outside) :
    ∃ th, st.module.samplers tid = some th ∧ th.pc.callsGetTime = true :=
  (Option.any_eq_true _ _).mp (inv.calling tid inside)

theorem SharedInv.lt_nextTid (inv : SharedInv maxNumnodes st) {tid : Nat} {th : Sampler}
    (thread : st.module.samplers tid = some th) : tid < st.module.nextTid := by
  by_contra beyond
  rw [inv.ctrl.unborn tid (not_lt.mp beyond)] at thread
  cases thread

/-- A step of the module, which ends a call of `get_time` only of the thread that makes it. -/
theorem SharedInv.moduleStep (inv : SharedInv maxNumnodes st) {a : ModuleAction} {module : ModuleState}
    (taken : st.module.step maxNumnodes a = some module) (stamped : st.module.Stamped st.clock.toNat a)
    {getTime : Nat → GetTimePc}
    (others : ∀ t, getTime t ≠ .outside → getTime t = st.getTime t ∧ ∀ input, a ≠ .sampler t input) :
    SharedInv maxNumnodes { st with module, getTime } := by
  constructor
  case ctrl => exact inv.ctrl.step taken
  case read => exact inv.read.step inv.ctrl taken
  case chained => exact inv.chained.step inv.ctrl inv.read taken
  case forward => exact inv.forward.step inv.ctrl le_rfl stamped taken
  case calling =>
    intro t inside
    obtain ⟨same, other⟩ := others t inside
    change getTime t ≠ .outside at inside
    rw [same] at inside
    obtain ⟨th, thread, calls⟩ := inv.caller inside
    obtain ⟨th', found, _, pc, _⟩ :=
      place_kept inv.ctrl taken thread (alive_of_callsGetTime calls) other
    show (module.samplers t).any _ = true
    rw [found, Option.any_some, pc]
    exact calls
  case shown =>
    intro t own member
    change own ∈ (getTime t).reading at member
    by_cases inside : getTime t = .outside
    · rw [inside] at member
      cases member
    · rw [(others t inside).1] at member
      exact inv.shown t own member
  case stamps =>
    intro t th' node' found place there
    show StampOk st.clock st.timespec node' (getTime t)
    by_cases inside : getTime t = .outside
    · rw [inside]
      trivial
    · obtain ⟨same, other⟩ := others t inside
      rw [same] at inside ⊢
      obtain ⟨th, thread, calls⟩ := inv.caller inside
      obtain ⟨th'', found', home, pc, nodes⟩ :=
        place_kept inv.ctrl taken thread (alive_of_callsGetTime calls) other
      change module.samplers t = some th' at found
      change module.xstatNodes th'.nid = some node' at there
      rw [found] at found'
      cases found'
      obtain ⟨node, before, words⟩ := nodes node' (home ▸ there)
      have ok := inv.stamps t th node thread (pc ▸ place) before
      cases here : st.getTime t with
      | outside => trivial
      | read | storedSec | storedNsec | loadedSec =>
        rw [here] at ok
        simp only [StampOk, words]
        exact ok

/-- A step inside a call of `get_time`. -/
theorem SharedInv.callStep (inv : SharedInv maxNumnodes st) {clock : Word} {timespec : Timespec}
    {tid : Nat} {pc : GetTimePc} (later : st.clock ≤ clock) (calls : st.calls tid = true)
    (shown : ∀ own ∈ pc.reading, own ≤ clock)
    (mine : ∀ th node, st.module.samplers tid = some th → th.pc = .restart 0 →
      st.module.xstatNodes th.nid = some node → StampOk clock timespec node pc)
    (others : ∀ t th node, t ≠ tid → st.module.samplers t = some th → th.pc = .restart 0 →
      st.module.xstatNodes th.nid = some node →
      StampOk st.clock st.timespec node (st.getTime t) → StampOk clock timespec node (st.getTime t)) :
    SharedInv maxNumnodes ({ st with clock, timespec }.setGetTime tid pc) where
  ctrl := inv.ctrl
  read := inv.read
  chained := inv.chained
  forward := fun nid node there => by
    have ok := inv.forward nid node there
    exact ok.quiet (BitVec.le_refl _) (ok.bound.trans (BitVec.le_def.mp later))
  calling := fun t inside => by
    by_cases same : t = tid
    · exact same ▸ calls
    · refine inv.calling t fun outside => inside ?_
      exact (Function.update_of_ne same ..).trans outside
  shown := fun t own member => by
    change own ∈ (Function.update st.getTime tid pc t).reading at member
    by_cases same : t = tid
    · subst same
      rw [Function.update_self] at member
      exact shown own member
    · rw [Function.update_of_ne same] at member
      exact BitVec.le_trans (inv.shown t own member) later
  stamps := fun t th node thread place there => by
    show StampOk clock timespec node (Function.update st.getTime tid pc t)
    by_cases same : t = tid
    · subst same
      rw [Function.update_self]
      exact mine th node thread place there
    · rw [Function.update_of_ne same]
      exact others t th node same thread place there (inv.stamps t th node thread place there)

theorem StampOk.later {clock clock' : Word} {timespec : Timespec} {node : XstatNode} {pc : GetTimePc}
    (ok : StampOk clock timespec node pc) (later : clock ≤ clock') :
    StampOk clock' timespec node pc := by
  cases pc with
  | outside | read | storedSec => exact ok
  | storedNsec | loadedSec => exact ⟨ok.1, ok.2.1, ok.2.2.later later⟩

theorem stamping_of_place {tid : Nat} {th : Sampler} (thread : st.module.samplers tid = some th)
    (place : th.pc = .restart 0) : st.stamping tid = true := by
  rw [ClockState.stamping, thread, Option.any_some, place]
  rfl

/-- **One step** that takes nothing from a `ts_restart`. -/
theorem SharedInv.step (inv : SharedInv maxNumnodes st) {a : ClockAction} (keeps : st.KeepsReadings a)
    (taken : st.step maxNumnodes a = some st') : SharedInv maxNumnodes st' := by
  have mineOf : ∀ {tid pc}, st.getTime tid = pc → pc ≠ .outside → st.calls tid = true :=
    fun here inside => inv.calling _ fun outside => inside (here.symm.trans outside)
  cases clockMove_of_step taken with
  | @module a module other step =>
    have outside : ∀ t, st.calls t = true → ∀ input, a ≠ .sampler t input := by
      rintro t calls input rfl
      rw [ClockState.uses, calls] at other
      cases other
    refine inv.moduleStep step ?_ fun t inside => ⟨rfl, outside t (inv.calling t inside)⟩
    rintro tid input th node rfl thread place _
    refine absurd rfl (outside tid ?_ input)
    rw [ClockState.calls, thread, Option.any_some, place]
    rfl
  | @readClock tid now calls _ later =>
    refine inv.callStep later calls ?_ (fun th node _ _ there => ?_)
      fun _ _ _ _ _ _ _ ok => ok.later later
    · rintro own ⟨⟩
      exact BitVec.le_refl _
    · have bound := BitVec.le_def.mpr (inv.forward th.nid node there).bound
      exact BitVec.le_trans bound later
  | @storeSec tid now here =>
    refine inv.callStep (BitVec.le_refl _) (mineOf here (by simp)) ?_
      (fun th node thread place there => ?_)
      fun t th node _ thread place _ ok => ?_
    · exact fun own member => inv.shown tid own (here ▸ member)
    · have ok := inv.stamps tid th node thread place there
      rw [here] at ok
      exact ⟨ok, rfl⟩
    · have same := keeps t (inv.lt_nextTid thread) (stamping_of_place thread place) now (by rw [here]; rfl)
      cases pc : st.getTime t with
      | outside => trivial
      | read | loadedSec =>
        rw [pc] at ok
        exact ok
      | storedSec own =>
        rw [pc] at ok same
        exact ⟨ok.1, same own rfl⟩
      | storedNsec own =>
        rw [pc] at ok same
        exact ⟨ok.1, same own rfl, ok.2.2⟩
  | @storeNsec tid now here =>
    have shown : now ≤ st.clock := inv.shown tid now (by rw [here]; rfl)
    refine inv.callStep (BitVec.le_refl _) (mineOf here (by simp)) ?_
      (fun th node thread place there => ?_)
      fun t th node _ thread place _ ok => ?_
    · exact fun own member => inv.shown tid own (here ▸ member)
    · have ok := inv.stamps tid th node thread place there
      rw [here] at ok
      exact ⟨ok.1, ok.2, now, ⟨rfl, BitVec.le_refl _⟩, shown, rfl⟩
    · have same := keeps t (inv.lt_nextTid thread) (stamping_of_place thread place) now (by rw [here]; rfl)
      cases pc : st.getTime t with
      | outside => trivial
      | read | storedSec =>
        rw [pc] at ok
        exact ok
      | storedNsec own | loadedSec own =>
        rw [pc] at ok same
        exact ⟨ok.1, ok.2.1, now, same own rfl, shown, rfl⟩
  | @loadSec tid now here =>
    refine inv.callStep (BitVec.le_refl _) (mineOf here (by simp)) ?_
      (fun th node thread place there => ?_)
      fun _ _ _ _ _ _ _ ok => ok
    · exact fun own member => inv.shown tid own (here ▸ member)
    · have ok := inv.stamps tid th node thread place there
      rw [here] at ok
      exact ok
  | @loadNsec tid now sec input module here step =>
    refine inv.moduleStep step ?_ fun t inside => ?_
    · rintro _ _ th node ⟨⟩ thread place there
      have ok := inv.stamps tid th node thread place there
      rw [here] at ok
      obtain ⟨low, high⟩ := ok.2.2.toNs ok.2.1
      exact ⟨BitVec.le_trans ok.1 low, BitVec.le_def.mp high⟩
    · have apart : t ≠ tid := by
        rintro rfl
        exact inside (Function.update_self ..)
      refine ⟨Function.update_of_ne apart .., fun given same => apart ?_⟩
      cases same
      rfl

end Steps

/-! ### Runs -/

/-- Steps of a sampler outside `get_time`. -/
def stepsOf (tid count : Nat) : List ClockAction :=
  List.replicate count (.module (.sampler tid default))

/-- A call of `get_time`, which nothing comes between. -/
def getTimeAt (tid : Nat) (now : Word) : List ClockAction :=
  [.readClock tid now, .storeSec tid, .storeNsec tid, .loadSec tid, .loadNsec tid default]

/-- A sampler of the only node is started, and takes its first sample. -/
def startsAndSamples (tid : Nat) (now : Word) : List ClockAction :=
  [.module (.storeCtrlAttr "on".toList), .module (.startStat true), .module (.startStat true)] ++
    stepsOf tid 17 ++ getTimeAt tid now ++ stepsOf tid 16

/-- A node is sampled, switched off and on again, and sampled by its next sampler. -/
def sampledAroundOff : List ClockAction :=
  List.flatten [startsAndSamples 0 5,
    [.module (.storeCtrlAttr "off".toList), .module .stopStat], getTimeAt 0 7, stepsOf 0 17,
    [.module .stopStat, .module .stopStat], startsAndSamples 1 1000000007]

/-- Two samples, by their timestamps. -/
theorem two_of_times {records : List Record} {first second : Nat}
    (times : (records.map fun r => r.ts.toNat) = [first, second]) :
    ∃ x y, records = [x, y] ∧ x.ts.toNat = first ∧ y.ts.toNat = second := by
  obtain ⟨x, rest, rfl, head, tail⟩ := List.map_eq_cons_iff.mp times
  obtain ⟨y, rest, rfl, next, none⟩ := List.map_eq_cons_iff.mp tail
  rw [List.map_eq_nil_iff.mp none]
  exact ⟨x, y, rfl, head, next⟩

/-- Two nodes are switched on, and both samplers get to their first `ts_restart`. -/
def twoSamplers : List ClockAction :=
  .module (.storeCtrlAttr "on".toList) :: List.replicate 3 (.module (.startStat true)) ++
    stepsOf 0 17 ++ stepsOf 1 17

/-- The second node's sampler reads the clock and waits. The first node's takes a sample, and in its next
pass the other one's stores come between its own ones and its loads. -/
def overtaken : List ClockAction :=
  List.flatten [twoSamplers, [.readClock 1 5], getTimeAt 0 10, stepsOf 0 16, getTimeAt 0 11, stepsOf 0 3,
    [.readClock 0 20, .storeSec 0, .storeNsec 0, .storeSec 1, .storeNsec 1, .loadSec 0,
      .loadNsec 0 default], stepsOf 0 16]

/-- Nor need the other reading be an old one: between the stores of the second node's sampler, at two
seconds, the first one's finds the new second and the nanoseconds of the old one, and is almost a second
ahead of the clock. -/
example : (exec (ClockState.step 2) (.start 2 (fun _ => true) 3) (List.flatten [twoSamplers,
    [.readClock 0 1999999999, .storeSec 0, .storeNsec 0, .readClock 1 2000000000, .storeSec 1,
      .loadSec 0, .loadNsec 0 default], stepsOf 0 16])).any (fun st =>
    ((st.module.samples 0).map fun r => r.ts.toNat) == [2999999999] && st.clock == 2000000000) := by
  decide +kernel

end Xstats.Xstat
