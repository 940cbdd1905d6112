/-
**The pace of the samples, and how long they are kept** (`kthread_function`, `roll_buffer`,
`store_period_attr`).

Here the module runs against a clock. Between any two of its steps time passes; `get_time` returns a time
that the clock has shown since it was called, `msleep` returns no sooner than it was asked to, and
`ctrl_period` may be written whenever `kthread_function` is about to read it. How long a pass takes is left
open.

* `slept_enough`: whatever a pass reads of the period, it sleeps away what is left of the least value.
* `PaceInv.step`: what the places of a node's thread say about the time of its next sample.
* `samples_paced`: with periods of `p` milliseconds and more, samples are `p - 1` milliseconds apart, and
  one is overwritten only after 256 times that; each start of a sampler may save one distance.
-/

import Xstats.Lib.Spacing
import Xstats.Xstat.Sleep
import Xstats.Xstat.Timestamps

namespace Xstats.Xstat

open SharedReads Spacing Transition ModuleState

/-! ### The module and the clock -/

/-- The module, the time in nanoseconds, and `ctrl_period`. For each thread since when it is at its place,
the pass from the end of `roll_buffer` to `msleep`, and when its `msleep` may return. -/
structure PaceState where
  module : ModuleState
  clock : Nat
  ctrlPeriod : BitVec 32
  since : Nat → Nat
  passes : Nat → Option (Pass AfterRoll (BitVec 32))
  wakeAt : Nat → Nat

inductive PaceAction
  | tick (ns : Nat)
  | storePeriodAttr (buf : List Char)
  | readPeriod (tid : Nat)
  | module (a : ModuleAction)

namespace PaceState

/-- The state that `xstat_init` leaves. -/
def start (maxNumnodes : Nat) (nodeOnline : Nat → Bool) (clock : Nat) : PaceState :=
  { module := xstatInit maxNumnodes nodeOnline, clock := clock, ctrlPeriod := initialCtrlPeriod
    since := fun _ => 0, passes := fun _ => none, wakeAt := fun _ => 0 }

def setPass (st : PaceState) (tid : Nat) (pass : Option (Pass AfterRoll (BitVec 32))) : PaceState :=
  { st with passes := Function.update st.passes tid pass }

/-- What `get_time` may return to the thread: a time that the clock has shown since the call. -/
def Shown (st : PaceState) (tid : Nat) (now : Word) : Prop :=
  st.since tid ≤ now.toNat ∧ now.toNat ≤ st.clock

instance (st : PaceState) (tid : Nat) (now : Word) : Decidable (st.Shown tid now) :=
  inferInstanceAs (Decidable (_ ∧ _))

/-- What a step of a thread has to do with the time; `node` is its node. -/
def timed (st : PaceState) (tid : Nat) (node : Option XstatNode) (input : Input) :
    SamplerPc → Option PaceState
  | .restart i => if i = 0 → st.Shown tid input.now then some st else none
  | .afterRoll => do
    -- The thread has `after_roll`, and reads the timestamp in `node->ctxs[1]`.
    let node ← node
    if st.Shown tid input.now then
      some (st.setPass tid (some ⟨⟨input.now, (node.ctxs 1).value⟩, []⟩))
    else none
  | .firstCheck => do
    let pass ← st.passes tid
    match pass.left kthreadSleep with
    | some (.done tosleep) =>
      -- `msleep`, or `schedule` where there is nothing left to sleep
      some { st with wakeAt := Function.update st.wakeAt tid (st.clock + tosleep.toNat * 1000000) }
    | _ => none
  | .sleeping => if st.wakeAt tid ≤ st.clock then some st else none
  | _ => some st

/-- The same of a step of the module. -/
def timedStep (st : PaceState) : ModuleAction → Option PaceState
  | .sampler tid input => do
    let th ← st.module.samplers tid
    let st ← st.timed tid (st.module.xstatNodes th.nid) input th.pc
    return { st with since := Function.update st.since tid st.clock }
  | _ => some st

def step (kstrtoul : List Char → Option Word) (maxNumnodes : Nat) (st : PaceState) :
    PaceAction → Option PaceState
  | .tick ns => some { st with clock := st.clock + ns }
  | .storePeriodAttr buf =>
    some { st with ctrlPeriod := storePeriodAttr kstrtoul buf st.ctrlPeriod }
  | .readPeriod tid => do
    let pass ← st.passes tid
    match pass.left kthreadSleep with
    | some (.read _) => some (st.setPass tid (some { pass with reads := pass.reads ++ [st.ctrlPeriod] }))
    | _ => none
  | .module a => do
    let st ← st.timedStep a
    let module ← st.module.step maxNumnodes a
    return { st with module := module }

end PaceState

/-! ### One pass -/

/-- A distance of one millisecond less than the period, in nanoseconds. -/
def distance (p : Nat) : Nat := (p - 1) * 1000000

/-- **A pass sleeps enough**: what passed since the timestamp and what it sleeps come to the distance of
every value not above those it read. -/
theorem slept_enough {after : AfterRoll} {reads : List (BitVec 32)} {tosleep : BitVec 32} {p : Nat}
    (left : (kthreadSleep after).feed reads = some (.done tosleep))
    (read : ∀ v ∈ reads, AcceptedPeriod v ∧ p ≤ v.toNat) (forward : after.ts ≤ after.afterRoll) :
    after.ts.toNat + distance p ≤ after.afterRoll.toNat + tosleep.toNat * 1000000 := by
  have passed : (after.afterRoll - after.ts).toNat = after.afterRoll.toNat - after.ts.toNat :=
    BitVec.toNat_sub_of_le forward
  have order := BitVec.le_def.mp forward
  have elapsed : after.elapsed = (after.afterRoll.toNat - after.ts.toNat) / 1000000 := by
    rw [AfterRoll.elapsed, passed]
  rcases reads_of_kthreadSleep left with ⟨first, second, rfl, _, rfl⟩ | ⟨_, _, third, rfl, _, rfl⟩
  · obtain ⟨accepted, least⟩ := read first (by simp)
    have high := accepted.2
    unfold distance
    by_cases fits : after.elapsed < 2 ^ 31
    · have rest := raised_eq fits accepted
      omega
    · -- more time has passed than any period is long
      omega
  · obtain ⟨accepted, least⟩ := read tosleep (by simp)
    unfold distance
    omega

/-! ### The samples with their samplers -/

/-- How often a sampler of the node entered `init_counters`. -/
def livesOf (nid : Nat) (events : List Event) : Nat :=
  events.countP fun
    | .initEntered n _ => n = nid
    | _ => false

/-- The samples of a node, each with the number of samplers that had been started there before it, which
is `lives` at the beginning. -/
def takenOf (nid : Nat) (lives : Nat) : List Event → List (Nat × Record)
  | [] => []
  | .initEntered n _ :: rest => takenOf nid (if n = nid then lives + 1 else lives) rest
  | .sample n record :: rest =>
    if n = nid then (lives, record) :: takenOf nid lives rest else takenOf nid lives rest
  | _ :: rest => takenOf nid lives rest

theorem takenOf_append (nid : Nat) (first second : List Event) (lives : Nat) :
    takenOf nid lives (first ++ second) =
      takenOf nid lives first ++ takenOf nid (lives + livesOf nid first) second := by
  induction first generalizing lives with
  | nil => rfl
  | cons event rest ih =>
    cases event with
    | initEntered n tid =>
      by_cases own : n = nid
      · simp [takenOf, livesOf, own, ih, Nat.add_assoc, Nat.add_comm 1]
      · simp [takenOf, livesOf, own, ih]
    | sample n record =>
      by_cases own : n = nid
      · simp [takenOf, livesOf, own, ih]
      · simp [takenOf, livesOf, own, ih]
    | _ => simp [takenOf, livesOf, ih]

theorem map_snd_takenOf (nid lives : Nat) (events : List Event) :
    (takenOf nid lives events).map Prod.snd = samplesOf nid events := by
  induction events generalizing lives with
  | nil => rfl
  | cons event rest ih =>
    cases event with
    | sample n record =>
      by_cases own : n = nid
      · simp [takenOf, samplesOf, own, ih]
      · simpa [takenOf, samplesOf, own] using ih lives
    | initEntered n tid => exact ih _
    | _ => exact ih lives

theorem takenOf_le {nid lives : Nat} {events : List Event} {x : Nat × Record}
    (member : x ∈ takenOf nid lives events) : lives ≤ x.1 ∧ x.1 ≤ lives + livesOf nid events := by
  induction events generalizing lives with
  | nil => cases member
  | cons event rest ih =>
    cases event with
    | initEntered n tid =>
      have later := ih member
      by_cases own : n = nid
      · simp only [own, if_true] at later
        simp only [livesOf, List.countP_cons, own, decide_true, if_true] at later ⊢
        omega
      · simp only [own, if_false] at later
        simpa [livesOf, own] using later
    | sample n record =>
      by_cases own : n = nid
      · simp only [takenOf, own, if_true, List.mem_cons] at member
        rcases member with rfl | inRest
        · simp
        · simpa [livesOf] using ih inRest
      · simp only [takenOf, own, if_false] at member
        simpa [livesOf] using ih member
    | _ => simpa [livesOf] using ih member

/-- The samples of a node with their samplers. -/
def ModuleState.taken (s : ModuleState) (nid : Nat) : List (Nat × Record) := takenOf nid 0 s.history

/-- How many samplers the node has had. -/
def ModuleState.lives (s : ModuleState) (nid : Nat) : Nat := livesOf nid s.history

/-- What one event adds to both. -/
theorem taken_of_append {s s' : ModuleState} {events : List Event}
    (history : s'.history = s.history ++ events) (nid : Nat) :
    s'.taken nid = s.taken nid ++ takenOf nid (s.lives nid) events ∧
      s'.lives nid = s.lives nid + livesOf nid events := by
  constructor
  · rw [taken, history, takenOf_append, Nat.zero_add]
    rfl
  · rw [lives, history, livesOf, List.countP_append]
    rfl

/-- The event is neither a sample of the node nor the start of a sampler there. -/
def Event.Idle (nid : Nat) (event : Event) : Prop :=
  (∀ tid, event ≠ .initEntered nid tid) ∧ ∀ record, event ≠ .sample nid record

theorem taken_of_idle {nid : Nat} {events : List Event} (idle : ∀ event ∈ events, event.Idle nid)
    (lives : Nat) : takenOf nid lives events = [] ∧ livesOf nid events = 0 := by
  induction events generalizing lives with
  | nil => exact ⟨rfl, rfl⟩
  | cons event rest ih =>
    have here := idle event List.mem_cons_self
    have later := ih fun event member => idle event (List.mem_cons_of_mem _ member)
    cases event with
    | initEntered n tid =>
      have apart : n ≠ nid := fun same => here.1 tid (same ▸ rfl)
      simpa [takenOf, livesOf, apart] using later lives
    | sample n record =>
      have apart : n ≠ nid := fun same => here.2 record (same ▸ rfl)
      simpa [takenOf, livesOf, apart] using later lives
    | _ => simpa [takenOf, livesOf] using later lives

theorem idle_afterInit (n nid tid : Nat) (i : Fin xstatNcnt) :
    ∀ event ∈ (afterInit nid tid i).2, event.Idle n := by
  unfold afterInit
  split <;> simp [Event.Idle]

theorem idle_afterExit (n nid tid : Nat) (i : Fin xstatNcnt) :
    ∀ event ∈ (afterExit nid tid i).2, event.Idle n := by
  unfold afterExit
  split <;> simp [Event.Idle]

/-- A thread samples its own node, and starts there. -/
theorem ThreadMove.idle_other {nid tid nextCtx : Nat} {shouldStop : Bool} {node : Option XstatNode}
    {input : Input} {pc : SamplerPc} {after : ThreadStep}
    (move : ThreadMove nid tid shouldStop nextCtx input pc node after) {n : Nat}
    (other : n ≠ nid) : ∀ event ∈ after.events, event.Idle n := by
  have apart := Ne.symm other
  cases move with
  | initPerf =>
    exact List.forall_mem_cons.mpr ⟨by simp [Event.Idle], idle_afterInit n nid tid _⟩
  | exitPerf =>
    exact List.forall_mem_cons.mpr ⟨by simp [Event.Idle], idle_afterExit n nid tid _⟩
  | init => exact idle_afterInit n nid tid _
  | exit => exact idle_afterExit n nid tid _
  | run | cancel | restartPerf | restart | commit | afterRoll | sleep | wake | again | leave =>
    simp [Event.Idle, apart]

/-! ### When the next sample is due -/

/-- The timestamp that `ts_restart` leaves in the entry after its own; the other counters leave it
there. -/
theorem restartCounter_stamp {node node' : XstatNode} {i : Fin xstatNcnt} {input : Input}
    (done : node.restartCounter i input = some node') :
    node'.ctxs 1 = if i = 0 then .word input.now else node.ctxs 1 := by
  have tsFirst : ∀ i, (nodeCounters i).restart = .tsRestart → i = 0 := by decide
  have energyApart : ∀ i, (nodeCounters i).restart = .energyRestart → i ≠ 1 := by decide
  by_cases first : i = 0
  · subst first
    have restart : (nodeCounters 0).restart = .tsRestart := rfl
    simp only [XstatNode.restartCounter, restart, callRestart, tsRestart, Option.bind_eq_bind,
      Option.bind_some, Option.pure_def, Option.some.injEq] at done
    subst done
    simp
  · rw [if_neg first]
    simp only [XstatNode.restartCounter, Option.bind_eq_bind, Option.bind_eq_some_iff, Option.pure_def,
      Option.some.injEq, Prod.exists] at done
    obtain ⟨ctxs, word, called, rfl⟩ := done
    show ctxs 1 = node.ctxs 1
    cases restart : (nodeCounters i).restart with
    | tsRestart => exact absurd (tsFirst i restart) first
    | energyRestart =>
      simp only [restart, callRestart, energyRestart, Option.some.injEq, Prod.mk.injEq] at called
      rw [← called.1, Function.update_of_ne (Ne.symm (energyApart i restart))]
    | perfRestart | xstatIpmiRestart =>
      simp only [restart, callRestart] at called
      split at called
      · cases called
        rfl
      · cases called
    | intvRestart | tempRestart | eunitRestart | perflmtRestart =>
      simp only [restart, callRestart, Option.some.injEq, Prod.mk.injEq] at called
      rw [← called.1]

namespace PaceState

/-- What the place of a node's thread says of the time, if `ts` is the timestamp of a sample that it took
itself and the node's newest. -/
def Due (p : Nat) (st : PaceState) (tid : Nat) (node : XstatNode) (ts : Word) : SamplerPc → Prop
  | .created | .exitCounters _ | .returned | .cancelled => True
  | .initCounters _ => False
  | .restart i =>
    if i = 0 then ts.toNat + distance p ≤ st.since tid
    else ts.toNat + distance p ≤ (node.workingBuf 0).toNat
  | .commit => ts.toNat + distance p ≤ (node.workingBuf 0).toNat
  | .afterRoll => node.ctxs 1 = .word ts ∧ ts.toNat ≤ st.since tid
  | .firstCheck =>
    ∀ pass, st.passes tid = some pass → pass.input.ts = ts ∧ ts ≤ pass.input.afterRoll
  | .sleeping => ts.toNat + distance p ≤ st.wakeAt tid
  | .secondCheck => ts.toNat + distance p ≤ st.clock

/-- Time passes, and others do what they do. -/
theorem Due.later {p tid : Nat} {st st' : PaceState} {node node' : XstatNode} {ts : Word}
    {pc : SamplerPc} (due : st.Due p tid node ts pc) (clock : st.clock ≤ st'.clock)
    (since : st'.since tid = st.since tid)
    (passes : ∀ pass', st'.passes tid = some pass' →
      ∃ pass, st.passes tid = some pass ∧ pass'.input = pass.input)
    (wakeAt : st'.wakeAt tid = st.wakeAt tid) (ctxs : node'.ctxs 1 = node.ctxs 1)
    (workingBuf : node'.workingBuf 0 = node.workingBuf 0) : st'.Due p tid node' ts pc := by
  cases pc with
  | created | exitCounters | returned | cancelled | initCounters => exact due
  | restart i =>
    simp only [Due, workingBuf, since] at due ⊢
    exact due
  | commit =>
    simp only [Due, workingBuf] at due ⊢
    exact due
  | afterRoll => exact ⟨ctxs.trans due.1, since ▸ due.2⟩
  | firstCheck =>
    intro pass' found
    obtain ⟨before, old, same⟩ := passes pass' found
    rw [same]
    exact due before old
  | sleeping =>
    simp only [Due, wakeAt] at due ⊢
    exact due
  | secondCheck =>
    simp only [Due] at due ⊢
    omega

theorem due_afterRestart {p tid : Nat} {st : PaceState} {node : XstatNode} {ts : Word}
    (i : Fin xstatNcnt) (due : ts.toNat + distance p ≤ (node.workingBuf 0).toNat) :
    st.Due p tid node ts (afterRestart i) := by
  unfold afterRestart nextCounter
  by_cases more : i.val + 1 < xstatNcnt
  · have later : (⟨i.val + 1, more⟩ : Fin xstatNcnt) ≠ 0 := fun same =>
      Nat.succ_ne_zero i.val (congrArg Fin.val same)
    simp only [dif_pos more, Due, if_neg later]
    exact due
  · simp only [dif_neg more]
    exact due

/-- What a thread's step says of the pace of its node: it starts a sampler there, or takes a sample, or
neither. -/
inductive OwnStep (p nid tid : Nat) (st st' : PaceState) (node node' : XstatNode) (pc : SamplerPc)
    (after : ThreadStep) : Prop
  | starts (taken : ∀ lives, takenOf nid lives after.events = [])
      (lives : livesOf nid after.events = 1)
  | samples (taken : ∀ lives, takenOf nid lives after.events = [(lives, node.workingBuf)])
      (lives : livesOf nid after.events = 0) (place : pc = .commit)
      (due : st'.Due p tid node' (node.workingBuf 0) after.pc)
  | neither (idle : ∀ event ∈ after.events, event.Idle nid)
      (due : ∀ ts, st.Due p tid node ts pc → st'.Due p tid node' ts after.pc)

end PaceState

/-- A sampler that has passed no stage of an iteration owes nothing for one. -/
theorem of_stage_zero {stage : Nat} {owed : Prop} (zero : stage = 0) (passed : 0 < stage) : owed :=
  absurd zero (Nat.ne_of_gt passed)

/-- **A thread's step**, with what it has to do with the time. -/
theorem ThreadMove.ownStep {p nid tid nextCtx : Nat} {shouldStop : Bool} {node : XstatNode}
    {input : Input} {pc : SamplerPc} {after : ThreadStep} {st st' : PaceState} (st'' : PaceState)
    (move : ThreadMove nid tid shouldStop nextCtx input pc (some node) after)
    (timed : st.timed tid (some node) input pc = some st') (clock : st''.clock = st'.clock)
    (since : st''.since tid = st'.clock) (passes : st''.passes = st'.passes)
    (wakeAt : st''.wakeAt = st'.wakeAt) (bound : (node.workingBuf 0).toNat ≤ st.clock)
    (read : ∀ pass, st.passes tid = some pass → pass.input.afterRoll.toNat ≤ st.clock ∧
      ∀ v ∈ pass.reads, AcceptedPeriod v ∧ p ≤ v.toNat)
    (entry : 0 < pc.stage → node.ctxs 1 = .word (node.workingBuf 0)) :
    ∃ node', after.node = some node' ∧
      (0 < after.pc.stage → node'.ctxs 1 = .word (node'.workingBuf 0)) ∧
      PaceState.OwnStep p nid tid st st'' node node' pc after := by
  cases move with
  | run going =>
    exact ⟨node, rfl, of_stage_zero rfl,
      .starts (fun lives => rfl) (by simp [livesOf])⟩
  | cancel =>
    exact ⟨node, rfl, of_stage_zero rfl,
      .neither (by simp) fun _ _ => trivial⟩
  | @initPerf _ i =>
    refine ⟨_, rfl, ?_, .neither ?_ fun _ due => due.elim⟩
    · exact of_stage_zero (stage_afterInit ..)
    · exact List.forall_mem_cons.mpr ⟨by simp [Event.Idle], idle_afterInit nid nid tid i⟩
  | @init _ i =>
    refine ⟨_, rfl, ?_, .neither (idle_afterInit nid nid tid i) fun _ due => due.elim⟩
    exact of_stage_zero (stage_afterInit ..)
  | @restartPerf _ node' i _ _ _ done | @restart _ node' i _ done =>
    obtain ⟨shown, same⟩ := Option.ite_none_right_eq_some.mp timed
    cases same
    have word := XstatNode.restartCounter_now done
    have stamp := restartCounter_stamp done
    refine ⟨node', rfl, fun _ => ?_, .neither (by simp [Event.Idle]) fun ts due => ?_⟩
    · by_cases first : i = 0
      · rw [stamp, word, if_pos first, if_pos first]
      · have positive : 0 < i.val := Nat.pos_of_ne_zero fun zero => first (Fin.ext zero)
        rw [stamp, word, if_neg first, if_neg first]
        exact entry positive
    · refine PaceState.due_afterRestart i ?_
      simp only [PaceState.Due] at due
      by_cases first : i = 0
      · rw [if_pos first] at due
        rw [word, if_pos first]
        exact due.trans (shown first).1
      · rw [if_neg first] at due
        rw [word, if_neg first]
        exact due
  | commit =>
    cases timed
    refine ⟨node.commit, rfl, of_stage_zero rfl,
      .samples (fun lives => by simp [takenOf]) (by simp [livesOf]) rfl ⟨?_, ?_⟩⟩
    · rw [XstatNode.ctxs_commit]
      exact entry (by decide)
    · rw [since]
      exact bound
  | afterRoll =>
    obtain ⟨shown, same⟩ := Option.ite_none_right_eq_some.mp timed
    cases same
    refine ⟨node, rfl, of_stage_zero rfl, .neither (by simp) fun ts due pass found => ?_⟩
    obtain ⟨stamp, old⟩ := due
    rw [passes] at found
    simp only [PaceState.setPass, Function.update_self, Option.some.injEq] at found
    subst found
    simp only [stamp, Slot.value, true_and]
    exact BitVec.le_def.mpr (old.trans shown.1)
  | sleep going =>
    refine ⟨node, rfl, of_stage_zero rfl,
      .neither (by simp) fun ts due => ?_⟩
    obtain ⟨pass, found, timed⟩ := Option.bind_eq_some_iff.mp timed
    split at timed
    · rename_i tosleep left
      cases timed
      obtain ⟨same, forward⟩ := due pass found
      obtain ⟨within, values⟩ := read pass found
      have slept := slept_enough left values (same ▸ forward)
      rw [same] at slept
      simp only [PaceState.Due, wakeAt, Function.update_self]
      omega
    · cases timed
  | wake =>
    obtain ⟨slept, same⟩ := Option.ite_none_right_eq_some.mp timed
    cases same
    refine ⟨node, rfl, of_stage_zero rfl,
      .neither (by simp) fun ts due => ?_⟩
    simp only [PaceState.Due, clock] at due ⊢
    omega
  | again going =>
    cases timed
    refine ⟨node, rfl, of_stage_zero rfl, .neither (by simp) fun ts due => ?_⟩
    show st''.Due p tid node ts (.restart 0)
    simp only [PaceState.Due, if_true, since] at due ⊢
    exact due
  | leave =>
    exact ⟨node, rfl, of_stage_zero rfl,
      .neither (by simp [Event.Idle]) fun _ _ => trivial⟩
  | @exitPerf _ i =>
    refine ⟨node, rfl, ?_, .neither ?_ fun _ _ => ?_⟩
    · exact of_stage_zero (stage_afterExit ..)
    · exact List.forall_mem_cons.mpr ⟨by simp [Event.Idle], idle_afterExit nid nid tid i⟩
    · unfold afterExit
      split <;> trivial
  | @exit _ i =>
    refine ⟨node, rfl, ?_, .neither (idle_afterExit nid nid tid i) fun _ _ => ?_⟩
    · exact of_stage_zero (stage_afterExit ..)
    · unfold afterExit
      split <;> trivial

/-! ### The invariant -/

/-- Where a sample stands that is at most one distance before the next one of its sampler. -/
def stand (p : Nat) (x : Nat × Record) : Nat := x.2.ts.toNat + x.1 * distance p

/-- The module, the clock, the passes, and the distances kept so far. -/
structure PaceInv (p maxNumnodes : Nat) (st : PaceState) : Prop where
  ctrl : CtrlInv maxNumnodes st.module
  read : ReadInv st.module
  chained : ClockInv st.module
  forward : ForwardInv st.clock st.module
  accepted : AcceptedPeriod st.ctrlPeriod
  passes : ∀ tid pass, st.passes tid = some pass →
    pass.input.afterRoll.toNat ≤ st.clock ∧ ∀ v ∈ pass.reads, AcceptedPeriod v ∧ p ≤ v.toNat
  called : ∀ tid th node, st.module.samplers tid = some th → st.module.xstatNodes th.nid = some node →
    th.pc = .restart 0 → (node.workingBuf 0).toNat ≤ st.since tid
  entry : ∀ tid th node, st.module.samplers tid = some th → st.module.xstatNodes th.nid = some node →
    0 < th.pc.stage → node.ctxs 1 = .word (node.workingBuf 0)
  due : ∀ tid th node record, st.module.samplers tid = some th →
    st.module.xstatNodes th.nid = some node →
    (st.module.taken th.nid).getLast? = some (st.module.lives th.nid, record) →
    st.Due p tid node record.ts th.pc
  spaced : ∀ nid, Spaced (stand p) (distance p) (st.module.taken nid)

theorem paceInv_start (p maxNumnodes : Nat) (nodeOnline : Nat → Bool) (clock : Nat) :
    PaceInv p maxNumnodes (.start maxNumnodes nodeOnline clock) where
  ctrl := ctrlInv_xstatInit maxNumnodes nodeOnline
  read := readInv_xstatInit maxNumnodes nodeOnline
  chained := clockInv_xstatInit maxNumnodes nodeOnline
  forward := forwardInv_xstatInit clock maxNumnodes nodeOnline
  accepted := (⟨by decide, by decide⟩ : AcceptedPeriod initialCtrlPeriod)
  passes := fun _ _ found => by cases found
  called := fun _ _ _ thread => by cases thread
  entry := fun _ _ _ thread => by cases thread
  due := fun _ _ _ _ thread => by cases thread
  spaced := fun _ => .nil

section Steps

variable {p maxNumnodes : Nat} {st st' : PaceState}

/-- The timestamp of a node's newest sample. -/
theorem PaceInv.newest (inv : PaceInv p maxNumnodes st) {nid : Nat} {node : XstatNode}
    (there : st.module.xstatNodes nid = some node) {x : Nat × Record}
    (last : (st.module.taken nid).getLast? = some x) : x.2.ts ≤ node.workingBuf 0 := by
  have newest : lastTs (st.module.samples nid) = x.2.ts := by
    have same : (st.module.taken nid).map Prod.snd = st.module.samples nid := map_snd_takenOf nid 0 _
    simp [lastTs, ← same, List.getLast?_map, last]
  exact newest ▸ (inv.forward nid node there).last_le

/-- A step that no thread makes. -/
theorem PaceInv.other (inv : PaceInv p maxNumnodes st) {a : ModuleAction} {module : ModuleState}
    (taken : st.module.step maxNumnodes a = some module) (other : ∀ tid input, a ≠ .sampler tid input) :
    PaceInv p maxNumnodes { st with module := module } := by
  have history := history_of_step taken other
  have same : ∀ nid, module.taken nid = st.module.taken nid ∧ module.lives nid = st.module.lives nid :=
    fun nid => by
      unfold ModuleState.taken lives
      rw [history]
      exact ⟨rfl, rfl⟩
  constructor
  case ctrl => exact inv.ctrl.step taken
  case read => exact inv.read.step inv.ctrl taken
  case chained => exact inv.chained.step inv.ctrl inv.read taken
  case forward =>
    exact inv.forward.step inv.ctrl le_rfl (fun tid input _ _ is => absurd is (other tid input)) taken
  case accepted => exact inv.accepted
  case passes => exact inv.passes
  case called =>
    intro tid th node thread there place
    obtain ⟨node₀, before, move⟩ := nodeMove_of_step taken other there
    rcases place_of_step taken other thread with ⟨th₀, old, nid, pc⟩ | created
    · rw [move.sameContexts.2]
      exact inv.called tid th₀ node₀ old (nid ▸ before) (pc ▸ place)
    · rw [created] at place
      cases place
  case entry =>
    intro tid th node thread there started
    obtain ⟨node₀, before, move⟩ := nodeMove_of_step taken other there
    obtain ⟨ctxs, workingBuf⟩ := move.sameContexts
    rcases place_of_step taken other thread with ⟨th₀, old, nid, pc⟩ | created
    · rw [ctxs, workingBuf]
      rw [nid] at before
      rw [pc] at started
      exact inv.entry tid th₀ node₀ old before started
    · rw [created] at started
      exact absurd started (Nat.lt_irrefl 0)
  case due =>
    intro tid th node record thread there last
    obtain ⟨node₀, before, move⟩ := nodeMove_of_step taken other there
    obtain ⟨ctxs, workingBuf⟩ := move.sameContexts
    rcases place_of_step taken other thread with ⟨th₀, old, nid, pc⟩ | created
    · change (module.taken th.nid).getLast? = some (module.lives th.nid, record) at last
      rw [(same th.nid).1, (same th.nid).2, nid] at last
      rw [nid] at before
      rw [pc]
      exact (inv.due tid th₀ node₀ record old before last).later (le_refl _) rfl
        (fun pass found => ⟨pass, found, rfl⟩) rfl (by rw [ctxs]) (by rw [workingBuf])
    · rw [created]
      trivial
  case spaced =>
    intro nid
    show Spaced _ _ (module.taken nid)
    rw [(same nid).1]
    exact inv.spaced nid

/-- What the time has to do with a thread's step changes that thread's pass and sleep only. -/
structure TimedFrame (st st' : PaceState) (tid : Nat) (input : Input) : Prop where
  module_eq : st'.module = st.module
  clock_eq : st'.clock = st.clock
  period_eq : st'.ctrlPeriod = st.ctrlPeriod
  since_eq : st'.since = st.since
  wakeAt_eq : ∀ t, t ≠ tid → st'.wakeAt t = st.wakeAt t
  passes_eq : ∀ t, t ≠ tid → st'.passes t = st.passes t
  pass : ∀ pass, st'.passes tid = some pass → st.passes tid = some pass ∨
    (pass.input.afterRoll = input.now ∧ pass.reads = [] ∧ input.now.toNat ≤ st.clock)

theorem TimedFrame.rfl {tid : Nat} {input : Input} : TimedFrame st st tid input where
  module_eq := by rfl
  clock_eq := by rfl
  period_eq := by rfl
  since_eq := by rfl
  wakeAt_eq := fun _ _ => by rfl
  passes_eq := fun _ _ => by rfl
  pass := fun _ found => .inl found

theorem timed_frame {tid : Nat} {node : Option XstatNode} {input : Input} {pc : SamplerPc}
    (timed : st.timed tid node input pc = some st') : TimedFrame st st' tid input := by
  cases pc with
  | restart | sleeping =>
    obtain ⟨_, step⟩ := Option.ite_none_right_eq_some.mp timed
    cases step
    exact .rfl
  | afterRoll =>
    obtain ⟨node, _, timed⟩ := Option.bind_eq_some_iff.mp timed
    obtain ⟨shown, step⟩ := Option.ite_none_right_eq_some.mp timed
    cases step
    refine ⟨rfl, rfl, rfl, rfl, fun _ _ => rfl, fun t apart => Function.update_of_ne apart _ _,
      fun pass found => .inr ?_⟩
    simp only [PaceState.setPass, Function.update_self, Option.some.injEq] at found
    subst found
    exact ⟨rfl, rfl, shown.2⟩
  | firstCheck =>
    obtain ⟨pass, _, step⟩ := Option.bind_eq_some_iff.mp timed
    split at step
    · cases step
      exact ⟨rfl, rfl, rfl, rfl, fun t apart => Function.update_of_ne apart _ _, fun _ _ => rfl,
        fun _ found => .inl found⟩
    · cases step
  | created | initCounters | commit | secondCheck | exitCounters | returned | cancelled =>
    cases timed
    exact .rfl

theorem alive_of_stage {pc : SamplerPc} (started : 0 < pc.stage) : pc.Alive := by
  constructor
  · rintro rfl
    exact Nat.lt_irrefl 0 started
  · rintro rfl
    exact Nat.lt_irrefl 0 started

/-- What a dead thread's place says of the time. -/
theorem due_of_dead {tid : Nat} {node : XstatNode} {ts : Word} {pc : SamplerPc} (dead : ¬ pc.Alive) :
    st.Due p tid node ts pc := by
  have place : pc = .returned ∨ pc = .cancelled := by
    by_contra neither
    exact dead (not_or.mp neither)
  rcases place with rfl | rfl <;> trivial

/-- A sample keeps its distance from the one before it. -/
theorem PaceInv.spaced_sample (inv : PaceInv p maxNumnodes st) {tid : Nat} {th : Sampler}
    {node : XstatNode} (thread : st.module.samplers tid = some th)
    (there : st.module.xstatNodes th.nid = some node) (place : th.pc = .commit) :
    Spaced (stand p) (distance p)
      (st.module.taken th.nid ++ [(st.module.lives th.nid, node.workingBuf)]) := by
  refine spaced_concat (inv.spaced th.nid) fun x last => ?_
  have newer := BitVec.le_def.mp (inv.newest there last)
  have few : x.1 ≤ st.module.lives th.nid := by
    have all := (takenOf_le (List.mem_of_getLast? last)).2
    rwa [Nat.zero_add] at all
  show x.2.ts.toNat + x.1 * distance p + distance p ≤
    (node.workingBuf 0).toNat + st.module.lives th.nid * distance p
  rcases few.eq_or_lt with same | fewer
  · have due := inv.due tid th node x.2 thread there (by rw [← same]; exact last)
    rw [place] at due
    have apart : x.2.ts.toNat + distance p ≤ (node.workingBuf 0).toNat := due
    rw [same]
    omega
  · have lives := Nat.mul_le_mul_right (distance p) fewer
    rw [Nat.succ_mul] at lives
    omega

/-- What `get_time` returns is a timestamp for the node's next sample. -/
theorem PaceInv.stamped (inv : PaceInv p maxNumnodes st) {tid : Nat} {input : Input} {th : Sampler}
    (thread : st.module.samplers tid = some th)
    (timed : st.timed tid (st.module.xstatNodes th.nid) input th.pc = some st') :
    st.module.Stamped st.clock (.sampler tid input) := by
  rintro _ _ _ node ⟨⟩ found place there
  rw [thread] at found
  cases found
  rw [place] at timed
  obtain ⟨shown, _⟩ := Option.ite_none_right_eq_some.mp timed
  obtain ⟨low, high⟩ := shown rfl
  exact ⟨BitVec.le_def.mpr ((inv.called tid th node thread there place).trans low), high⟩

/-- A step of a thread. -/
theorem PaceInv.sampler (inv : PaceInv p maxNumnodes st) {tid : Nat} {input : Input} {th : Sampler}
    {after : ThreadStep} (thread : st.module.samplers tid = some th)
    (timed : st.timed tid (st.module.xstatNodes th.nid) input th.pc = some st')
    (taken : st.module.step maxNumnodes (.sampler tid input) = some
      { (st.module.setNode th.nid after.node).setSampler tid { th with pc := after.pc } with
        nextCtx := after.nextCtx
        history := st.module.history ++ after.events })
    (move : ThreadMove th.nid tid th.shouldStop st.module.nextCtx input th.pc
      (st.module.xstatNodes th.nid) after) :
    PaceInv p maxNumnodes { st' with
      since := Function.update st'.since tid st'.clock
      module :=
        { (st.module.setNode th.nid after.node).setSampler tid { th with pc := after.pc } with
          nextCtx := after.nextCtx
          history := st.module.history ++ after.events } } := by
  set module : ModuleState :=
    { (st.module.setNode th.nid after.node).setSampler tid { th with pc := after.pc } with
      nextCtx := after.nextCtx
      history := st.module.history ++ after.events } with moduleIs
  have alive := move.kept.alive
  obtain ⟨node, there, _⟩ := task_eq_some (inv.ctrl.owned tid th thread alive)
  have frame := timed_frame timed
  have clock := frame.clock_eq
  have forward : ForwardInv st.clock module :=
    inv.forward.step inv.ctrl le_rfl (inv.stamped thread timed) taken
  have events : ∀ nid, module.taken nid =
        st.module.taken nid ++ takenOf nid (st.module.lives nid) after.events ∧
      module.lives nid = st.module.lives nid + livesOf nid after.events := taken_of_append rfl
  have elsewhere : ∀ nid, nid ≠ th.nid →
      module.taken nid = st.module.taken nid ∧ module.lives nid = st.module.lives nid := by
    intro nid apart
    obtain ⟨none, zero⟩ := taken_of_idle (move.idle_other apart) (st.module.lives nid)
    rw [(events nid).1, (events nid).2, none, zero, List.append_nil]
    exact ⟨rfl, rfl⟩
  have nodes : ∀ nid, module.xstatNodes nid = if nid = th.nid then after.node
      else st.module.xstatNodes nid := xstatNodes_setNode st.module th.nid after.node
  have threads : ∀ t, module.samplers t = if t = tid then some { th with pc := after.pc }
      else st.module.samplers t := fun t => Function.update_apply ..
  rw [there] at move timed
  obtain ⟨node', node_eq, entry, own⟩ := move.ownStep
    { st' with since := Function.update st'.since tid st'.clock, module := module } timed rfl
    (Function.update_self ..) rfl rfl (inv.forward th.nid node there).bound
    (fun pass found => inv.passes tid pass found)
    (fun started => inv.entry tid th node thread there started)
  -- another thread of the node is dead
  have unique : ∀ t th', st.module.samplers t = some th' → t ≠ tid → th'.nid = th.nid →
      ¬ th'.pc.Alive := fun t th' other apart same alive' =>
    apart (inv.ctrl.alive_unique other thread alive' alive same)
  constructor
  case ctrl => exact inv.ctrl.step taken
  case read => exact inv.read.step inv.ctrl taken
  case chained => exact inv.chained.step inv.ctrl inv.read taken
  case forward => exact clock ▸ forward
  case accepted =>
    show AcceptedPeriod st'.ctrlPeriod
    rw [frame.period_eq]
    exact inv.accepted
  case passes =>
    intro t pass found
    change st'.passes t = some pass at found
    show pass.input.afterRoll.toNat ≤ st'.clock ∧ _
    rw [clock]
    by_cases mine : t = tid
    · subst mine
      rcases frame.pass pass found with old | ⟨now, none, shown⟩
      · exact inv.passes t pass old
      · exact ⟨now ▸ shown, by simp [none]⟩
    · rw [frame.passes_eq t mine] at found
      exact inv.passes t pass found
  case called =>
    intro t th' found thread' there' place
    change module.samplers t = some th' at thread'
    change module.xstatNodes th'.nid = some found at there'
    show _ ≤ Function.update st'.since tid st'.clock t
    by_cases mine : t = tid
    · subst mine
      rw [Function.update_self, clock]
      exact (forward th'.nid found there').bound
    · rw [threads, if_neg mine] at thread'
      rw [Function.update_of_ne mine, frame.since_eq]
      have alive' : th'.pc.Alive := by rw [place]; decide
      have apart : th'.nid ≠ th.nid := fun same => unique t th' thread' mine same alive'
      rw [nodes, if_neg apart] at there'
      exact inv.called t th' found thread' there' place
  case entry =>
    intro t th' found thread' there' started
    change module.samplers t = some th' at thread'
    change module.xstatNodes th'.nid = some found at there'
    rw [threads] at thread'
    rw [nodes] at there'
    by_cases mine : t = tid
    · rw [if_pos mine] at thread'
      cases thread'
      rw [if_pos rfl, node_eq] at there'
      cases there'
      exact entry started
    · rw [if_neg mine] at thread'
      by_cases same : th'.nid = th.nid
      · exact absurd (alive_of_stage started) (unique t th' thread' mine same)
      · rw [if_neg same] at there'
        exact inv.entry t th' found thread' there' started
  case due =>
    intro t th' found record thread' there' last
    change module.samplers t = some th' at thread'
    change module.xstatNodes th'.nid = some found at there'
    change (module.taken th'.nid).getLast? = some (module.lives th'.nid, record) at last
    rw [threads] at thread'
    rw [nodes] at there'
    by_cases mine : t = tid
    · subst mine
      rw [if_pos rfl] at thread'
      cases thread'
      rw [if_pos rfl, node_eq] at there'
      cases there'
      change (module.taken th.nid).getLast? = some (module.lives th.nid, record) at last
      rw [(events th.nid).1, (events th.nid).2] at last
      cases own with
      | starts none one =>
        rw [none, one, List.append_nil] at last
        have few := (takenOf_le (List.mem_of_getLast? last)).2
        change st.module.lives th.nid + 1 ≤ 0 + st.module.lives th.nid at few
        omega
      | samples new zero place due =>
        rw [new, List.getLast?_concat, Option.some.injEq, Prod.mk.injEq] at last
        rw [← last.2]
        exact due
      | neither idle due =>
        obtain ⟨none, zero⟩ := taken_of_idle idle (st.module.lives th.nid)
        rw [none, zero, List.append_nil] at last
        exact due _ (inv.due t th node record thread there last)
    · rw [if_neg mine] at thread'
      by_cases same : th'.nid = th.nid
      · exact due_of_dead (unique t th' thread' mine same)
      · rw [if_neg same] at there'
        rw [(elsewhere _ same).1, (elsewhere _ same).2] at last
        refine (inv.due t th' found record thread' there' last).later clock.ge ?_
          (fun pass there => ⟨pass, (frame.passes_eq t mine).symm.trans there, rfl⟩)
          (frame.wakeAt_eq t mine) rfl rfl
        exact (Function.update_of_ne mine ..).trans (congrFun frame.since_eq t)
  case spaced =>
    intro nid
    show Spaced _ _ (module.taken nid)
    by_cases same : nid = th.nid
    · subst same
      rw [(events th.nid).1]
      cases own with
      | starts none =>
        rw [none, List.append_nil]
        exact inv.spaced th.nid
      | samples new _ place =>
        rw [new]
        exact inv.spaced_sample thread there place
      | neither idle =>
        rw [(taken_of_idle idle _).1, List.append_nil]
        exact inv.spaced th.nid
    · rw [(elsewhere nid same).1]
      exact inv.spaced nid

/-- A step that is none of the module's. -/
theorem PaceInv.outside (inv : PaceInv p maxNumnodes st) (same : st'.module = st.module)
    (clock : st.clock ≤ st'.clock) (since : st'.since = st.since) (wakeAt : st'.wakeAt = st.wakeAt)
    (accepted : AcceptedPeriod st'.ctrlPeriod)
    (kept : ∀ tid pass', st'.passes tid = some pass' →
      (∃ pass, st.passes tid = some pass ∧ pass'.input = pass.input) ∧
        ∀ v ∈ pass'.reads, AcceptedPeriod v ∧ p ≤ v.toNat) : PaceInv p maxNumnodes st' := by
  constructor
  case ctrl => rw [same]; exact inv.ctrl
  case read => rw [same]; exact inv.read
  case chained => rw [same]; exact inv.chained
  case forward =>
    rw [same]
    intro nid node there
    have ok := inv.forward nid node there
    exact ok.quiet (BitVec.le_refl _) (ok.bound.trans clock)
  case accepted => exact accepted
  case called => rw [same, since]; exact inv.called
  case entry => rw [same]; exact inv.entry
  case spaced => rw [same]; exact inv.spaced
  case passes =>
    intro tid pass found
    obtain ⟨⟨old, there, input⟩, read⟩ := kept tid pass found
    rw [input]
    exact ⟨(inv.passes tid old there).1.trans clock, read⟩
  case due =>
    rw [same]
    intro tid th node record thread there last
    exact (inv.due tid th node record thread there last).later clock (by rw [since])
      (fun pass found => (kept tid pass found).1) (by rw [wakeAt]) rfl rfl

/-- **Every step keeps it**, as long as the period is not below `p`. -/
theorem PaceInv.step (inv : PaceInv p maxNumnodes st) {kstrtoul : List Char → Option Word}
    {a : PaceAction} (slow : p ≤ st.ctrlPeriod.toNat)
    (taken : st.step kstrtoul maxNumnodes a = some st') : PaceInv p maxNumnodes st' := by
  have carried : ∀ tid pass, st.passes tid = some pass →
      (∃ pass', st.passes tid = some pass' ∧ pass.input = pass'.input) ∧
        ∀ v ∈ pass.reads, AcceptedPeriod v ∧ p ≤ v.toNat := fun tid pass found =>
    ⟨⟨pass, found, rfl⟩, (inv.passes tid pass found).2⟩
  cases a with
  | tick ns =>
    cases taken
    exact inv.outside rfl (Nat.le_add_right _ _) rfl rfl inv.accepted carried
  | storePeriodAttr buf =>
    cases taken
    exact inv.outside rfl (le_refl _) rfl rfl (accepted_storePeriod 0 kstrtoul buf _ inv.accepted) carried
  | readPeriod tid =>
    simp only [PaceState.step, Option.bind_eq_bind, Option.bind_eq_some_iff] at taken
    obtain ⟨pass, here, step⟩ := taken
    split at step
    · cases step
      refine inv.outside rfl (le_refl _) rfl rfl inv.accepted fun t pass' found => ?_
      rcases update_eq_iff.mp found with ⟨rfl, new⟩ | ⟨_, old⟩
      · cases new
        refine ⟨⟨pass, here, rfl⟩, fun v member => ?_⟩
        rcases List.mem_append.mp member with before | last
        · exact (carried t pass here).2 v before
        · rw [List.mem_singleton.mp last]
          exact ⟨inv.accepted, slow⟩
      · exact carried t pass' old
    · cases step
  | module a =>
    simp only [PaceState.step, Option.bind_eq_bind, Option.bind_eq_some_iff, Option.pure_def,
      Option.some.injEq] at taken
    obtain ⟨timed, timing, module, step, rfl⟩ := taken
    by_cases thread : ∃ tid input, a = .sampler tid input
    · obtain ⟨tid, input, rfl⟩ := thread
      simp only [PaceState.timedStep, Option.bind_eq_bind, Option.bind_eq_some_iff, Option.pure_def,
        Option.some.injEq] at timing
      obtain ⟨th, thread, timed, timing, rfl⟩ := timing
      change timed.module.step maxNumnodes (.sampler tid input) = some module at step
      rw [(timed_frame timing).module_eq] at step
      have move := move_of_step step
      cases move with
      | @sampler _ _ th' after thread' move =>
        rw [thread] at thread'
        cases thread'
        exact inv.sampler thread timing step move
    · have other : ∀ tid input, a ≠ .sampler tid input := fun tid input is => thread ⟨tid, input, is⟩
      have same : timed = st := by
        cases a with
        | sampler tid input => exact absurd rfl (other tid input)
        | _ => exact (Option.some.inj timing).symm
      subst same
      exact inv.other step other

end Steps

/-! ### Runs -/

/-- The samples of a node, by their places. -/
theorem getElem?_taken {s : ModuleState} {nid i : Nat} {record : Record}
    (there : (s.samples nid)[i]? = some record) : ∃ k, (s.taken nid)[i]? = some (k, record) := by
  have same : (s.taken nid).map Prod.snd = s.samples nid := map_snd_takenOf nid 0 _
  rw [← same, List.getElem?_map, Option.map_eq_some_iff] at there
  obtain ⟨x, found, rfl⟩ := there
  exact ⟨x.1, found⟩

/-- **Samples keep a pace, and are kept for a time.** In every run in which `ctrl_period` is never below
`p`, whatever the passes take, however the writes of the period fall between their reads, and whatever is
switched, reset or read meanwhile: of two samples of a node with `n - 1` others between them, the later is
`n` distances of `p - 1` milliseconds after the earlier, less one for each sampler started in between; and
a sampler about to overwrite a pending sample does so with one that is 256 distances younger, less one for
each sampler started since. -/
theorem samples_paced {p maxNumnodes clock : Nat} {nodeOnline : Nat → Bool}
    {kstrtoul : List Char → Option Word} {trace : List (PaceState × PaceAction)} {st : PaceState}
    (run : Run (PaceState.step kstrtoul maxNumnodes) (.start maxNumnodes nodeOnline clock) trace st)
    (slow : ∀ x ∈ trace, p ≤ x.1.ctrlPeriod.toNat) (nid : Nat) :
    (∀ i n k record k' record', (st.module.taken nid)[i]? = some (k, record) →
      (st.module.taken nid)[i + n]? = some (k', record') →
      record.ts.toNat + (k + n) * distance p ≤ record'.ts.toNat + k' * distance p) ∧
    ∀ tid th node, st.module.samplers tid = some th → th.nid = nid → th.pc = .commit →
      st.module.xstatNodes nid = some node → node.bufferSize = xstatNbuf →
      ∃ k oldest rest, node.pending = oldest :: rest ∧ (k, oldest) ∈ st.module.taken nid ∧
        oldest.ts.toNat + (k + xstatNbuf) * distance p ≤
          (Record.ts node.workingBuf).toNat + st.module.lives nid * distance p := by
  have inv := run.invariant (P := PaceInv p maxNumnodes) (fun st _ => p ≤ st.ctrlPeriod.toNat)
    (paceInv_start p maxNumnodes nodeOnline clock) (fun _ _ _ before slow taken => before.step slow taken)
    slow
  constructor
  · intro i n k record k' record' first second
    have apart := (inv.spaced nid).le first second
    simp only [stand] at apart
    rw [Nat.add_mul]
    omega
  · rintro tid th node thread rfl place there full
    obtain ⟨front, samples⟩ := (inv.chained th.nid node there).pending
    have length : node.pending.length = xstatNbuf := by
      rw [XstatNode.pending, RingBuffer.Buffer.length_contents]
      exact full
    cases pending : node.pending with
    | nil =>
      rw [pending] at length
      cases length
    | cons oldest rest =>
      have first : (st.module.samples th.nid)[front.length]? = some oldest := by
        rw [← samples, pending]
        simp
      obtain ⟨k, here⟩ := getElem?_taken first
      have count : (st.module.taken th.nid).length = front.length + xstatNbuf := by
        have same : (st.module.taken th.nid).map Prod.snd = st.module.samples th.nid :=
          map_snd_takenOf th.nid 0 _
        rw [← List.length_map (f := Prod.snd), same, ← samples, List.length_append, length]
      have inside : front.length < (st.module.taken th.nid).length :=
        (List.getElem?_eq_some_iff.mp here).1
      have apart := (inv.spaced_sample thread there place).le (i := front.length) (n := xstatNbuf)
        ((List.getElem?_append_left inside).trans here)
        (by rw [← count]; exact List.getElem?_concat_length)
      refine ⟨k, oldest, rest, rfl, List.mem_of_getElem? here, ?_⟩
      simp only [stand] at apart
      rw [Nat.add_mul]
      show _ ≤ (Record.ts node.workingBuf).toNat + _
      have ts : (Record.ts node.workingBuf) = node.workingBuf 0 := rfl
      omega

/-- A step of the sampler at a time. -/
def samplerAt (now : Nat) : PaceAction :=
  .module (.sampler 0 { (default : Input) with now := BitVec.ofNat 64 now })

/-- The node is switched on at five nanoseconds and sampled twice. Its first pass takes two nanoseconds,
and its `msleep` returns after just the 999 milliseconds that are left. -/
def sampledInTime : List PaceAction :=
  List.flatten [
    [.module (.storeCtrlAttr "on".toList), .module (.startStat true), .module (.startStat true)],
    List.replicate 34 (samplerAt 5), [.tick 2, samplerAt 7, .readPeriod 0, .readPeriod 0],
    [samplerAt 7, .tick 999000000], List.replicate 19 (samplerAt 999000007)]

theorem samples_paced_in_time :
    ∃ st first second, Reachable (PaceState.step decimalUlong 1) (.start 1 (fun _ => true) 5) st ∧
      st.module.taken 0 = [(1, first), (1, second)] ∧
      first.ts.toNat + 999 * 1000000 ≤ second.ts.toNat := by
  let slowStep := guarded (fun (st : PaceState) _ => decide (1000 ≤ st.ctrlPeriod.toNat))
    (PaceState.step decimalUlong 1)
  have done : (exec slowStep (.start 1 (fun _ => true) 5) sampledInTime).any fun st =>
      (st.module.taken 0).map Prod.fst == [1, 1] := by decide +kernel
  obtain ⟨trace, st, run, _, passed⟩ := run_of_exec_any done
  obtain ⟨plain, admitted⟩ := run.of_guarded
  have lives := eq_of_beq passed
  obtain ⟨⟨k, first⟩, ⟨k', second⟩, taken⟩ : ∃ x y, st.module.taken 0 = [x, y] :=
    List.length_eq_two.mp (by simpa using congrArg List.length lives)
  rw [taken] at lives
  cases lives
  refine ⟨st, first, second, ⟨trace, plain⟩, taken, ?_⟩
  have apart := (samples_paced plain (fun x member => of_decide_eq_true (admitted x member)) 0).1
    0 1 1 first 1 second (by rw [taken]; rfl) (by rw [taken]; rfl)
  unfold distance at apart
  omega

end Xstats.Xstat
