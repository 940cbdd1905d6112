/-
**Energy across wraps** (`energy_restart` of `msr_cnt.c`).

The energy counter is the low half of a register that is read whole. `energy_restart` masks the reading
before it subtracts, but keeps it in its entry of `ctxs` as it was before the mask; where the upper half
was not zero, the next call subtracts too much. Nothing else writes to the entry, so that the readings
of a node form one sequence across all its samplers.

* `energyExact_iff`: which pair of readings gives the counter's advance.
* `EntryInv.step`: the entry holds the last reading.
* `energy_adds_up_iff`: when the results of a run are exact and add up to the energy consumed.
-/

import Xstats.Xstat.Module

namespace Xstats.Xstat

open Transition ModuleState

/-! ### Two readings -/

/-- The counter in a reading. -/
def low32 (reading : Word) : Nat := reading.toNat % 2 ^ 32

/-- The rest of a reading. -/
def high32 (reading : Word) : Nat := reading.toNat / 2 ^ 32

/-- A result is how far the counter moved between two readings. -/
def EnergyExact (prev reading result : Word) : Prop :=
  result.toNat = (2 ^ 32 + low32 reading - low32 prev) % 2 ^ 32 ∧ result.toNat < 2 ^ 32

/-- What the earlier of two readings may hold above the counter: nothing, or a single bit in its lowest
place if the counter does not wrap between the two. -/
def UpperHarmless (prev reading : Word) : Prop :=
  high32 prev = 0 ∨ (high32 prev = 1 ∧ low32 prev ≤ low32 reading)

instance (prev reading : Word) : Decidable (UpperHarmless prev reading) :=
  inferInstanceAs (Decidable (_ ∨ _))

/-- What `energy_restart` returns where its entry holds `laste`. -/
def energyDelta (laste reading : Word) : Word := (energyRestart (fun _ => .word laste) 0 reading).2

theorem energyRestart_eq (ctxs : Ctxs) (i : Fin xstatNcnt) (reading : Word) :
    energyRestart ctxs i reading =
      (Function.update ctxs i (.word reading), energyDelta (ctxs i).value reading) := rfl

theorem toNat_energyDelta (laste reading : Word) :
    (energyDelta laste reading).toNat =
      (2 ^ 64 - laste.toNat +
        if low32 reading < laste.toNat then low32 reading + 2 ^ 32 else low32 reading) % 2 ^ 64 := by
  have masked : (reading &&& 0xffffffff).toNat = low32 reading := by
    rw [BitVec.toNat_and]
    exact Nat.and_two_pow_sub_one_eq_mod reading.toNat 32
  have small : low32 reading < 2 ^ 32 := Nat.mod_lt _ (by decide)
  have compare : reading &&& 0xffffffff < laste ↔ low32 reading < laste.toNat := by
    rw [BitVec.lt_def, masked]
  change ((if reading &&& 0xffffffff < laste then (reading &&& 0xffffffff) + 0x100000000
    else reading &&& 0xffffffff) - laste).toNat = _
  have carried : ((reading &&& 0xffffffff) + 0x100000000).toNat = low32 reading + 2 ^ 32 := by
    have carry : (0x100000000 : Word).toNat = 2 ^ 32 := by decide
    rw [BitVec.toNat_add, masked, carry]
    exact Nat.mod_eq_of_lt (by omega)
  by_cases wraps : low32 reading < laste.toNat
  · rw [if_pos (compare.mpr wraps), if_pos wraps, BitVec.toNat_sub, carried]
  · rw [if_neg (compare.not.mpr wraps), if_neg wraps, BitVec.toNat_sub, masked]

/-- **Two readings** give the counter's advance exactly where the upper half of the first is
harmless. -/
theorem energyExact_iff (prev reading : Word) :
    EnergyExact prev reading (energyDelta prev reading) ↔ UpperHarmless prev reading := by
  have bound : prev.toNat < 2 ^ 64 := prev.isLt
  have parts : prev.toNat = 2 ^ 32 * high32 prev + low32 prev := (Nat.div_add_mod _ _).symm
  have small : low32 reading < 2 ^ 32 := Nat.mod_lt _ (by decide)
  have smallPrev : low32 prev < 2 ^ 32 := Nat.mod_lt _ (by decide)
  unfold EnergyExact UpperHarmless
  rw [toNat_energyDelta]
  split <;> omega

/-! ### The readings of a run -/

/-- The energy counter of `node_counters`. -/
abbrev energyIndex : Fin xstatNcnt := 10

theorem restart_energy_iff (i : Fin xstatNcnt) :
    (nodeCounters i).restart = .energyRestart ↔ i = energyIndex := by
  revert i
  decide

/-- An iteration of `roll_buffer` and the energy entry. -/
theorem restartCounter_energy {node node' : XstatNode} {i : Fin xstatNcnt} {input : Input}
    (done : node.restartCounter i input = some node') :
    (i = energyIndex → node'.ctxs energyIndex = .word input.energyStatus ∧
      node'.workingBuf energyIndex =
        energyDelta (node.ctxs energyIndex).value input.energyStatus) ∧
    (i ≠ energyIndex → node'.ctxs energyIndex = node.ctxs energyIndex) := by
  constructor
  · rintro rfl
    have restart : (nodeCounters energyIndex).restart = .energyRestart := rfl
    simp only [XstatNode.restartCounter, restart, callRestart, energyRestart_eq, Option.bind_eq_bind,
      Option.bind_some, Option.pure_def, Option.some.injEq] at done
    subst done
    exact ⟨by simp, by simp⟩
  · intro other
    have tsApart : ∀ i, (nodeCounters i).restart = .tsRestart →
        energyIndex ≠ i ∧ energyIndex ≠ i + 1 := by decide
    simp only [XstatNode.restartCounter, Option.bind_eq_bind, Option.bind_eq_some_iff, Option.pure_def,
      Option.some.injEq, Prod.exists] at done
    obtain ⟨ctxs, word, called, rfl⟩ := done
    show ctxs energyIndex = _
    cases restart : (nodeCounters i).restart with
    | energyRestart => exact absurd ((restart_energy_iff i).mp restart) other
    | tsRestart =>
      obtain ⟨own, next⟩ := tsApart i restart
      simp only [restart, callRestart, tsRestart, Option.some.injEq, Prod.mk.injEq] at called
      rw [← called.1, Function.update_of_ne next, Function.update_of_ne own]
    | perfRestart | xstatIpmiRestart =>
      simp only [restart, callRestart] at called
      split at called
      · cases called
        rfl
      · cases called
    | intvRestart | tempRestart | eunitRestart | perflmtRestart =>
      simp only [restart, callRestart, Option.some.injEq, Prod.mk.injEq] at called
      rw [called.1]

/-- A call of `energy_restart` on the node: the reading, and the word that `roll_buffer` stores. -/
def energyCall (nid : Nat) (x : ModuleState × ModuleAction) : Option (Word × Word) :=
  match x.2 with
  | .sampler tid input => do
    let th ← x.1.samplers tid
    let node ← x.1.xstatNodes nid
    if th.nid = nid ∧ th.pc = .restart energyIndex then
      let (_, result) := energyRestart node.ctxs energyIndex input.energyStatus
      return (input.energyStatus, result)
    else none
  | _ => none

/-- The calls of `energy_restart` on a node, in order. -/
def energyCalls (nid : Nat) (trace : List (ModuleState × ModuleAction)) : List (Word × Word) :=
  trace.filterMap (energyCall nid)

/-- The last reading, zero if there is none. -/
def lastEnergyReading (calls : List (Word × Word)) : Word := ((calls.getLast?).map Prod.fst).getD 0

/-- The energy entry after a thread's step: its reading if the step calls `energy_restart`. -/
theorem ThreadMove.energyEntry {nid tid nextCtx : Nat} {shouldStop : Bool} {node : XstatNode}
    {input : Input} {pc : SamplerPc} {after : ThreadStep}
    (move : ThreadMove nid tid shouldStop nextCtx input pc (some node) after) :
    ∃ node', after.node = some node' ∧
      (pc = .restart energyIndex → node'.ctxs energyIndex = .word input.energyStatus ∧
        node'.workingBuf energyIndex =
          energyDelta (node.ctxs energyIndex).value input.energyStatus) ∧
      (pc ≠ .restart energyIndex → node'.ctxs energyIndex = node.ctxs energyIndex) := by
  have kept : ∀ i allocated, (node.initCounter allocated i).ctxs energyIndex =
      node.ctxs energyIndex := by
    intro i allocated
    rw [XstatNode.ctxs_initCounter]
    by_cases here : energyIndex = i
    · subst here
      rw [Function.update_self]
      rfl
    · rw [Function.update_of_ne here]
  cases move with
  | run | cancel | afterRoll | sleep | wake | exitPerf | exit | again =>
    exact ⟨node, rfl, by simp, fun _ => rfl⟩
  | leave check =>
    refine ⟨node, rfl, fun here => ?_, fun _ => rfl⟩
    rcases check with rfl | rfl <;> cases here
  | commit => exact ⟨node.commit, rfl, by simp, fun _ => by rw [XstatNode.ctxs_commit]⟩
  | @initPerf _ i | @init _ i => exact ⟨_, rfl, by simp, fun _ => kept i nextCtx⟩
  | @restartPerf _ node' i _ _ _ done | @restart _ node' i _ done =>
    obtain ⟨here, elsewhere⟩ := restartCounter_energy done
    refine ⟨node', rfl, fun is => ?_, fun other => elsewhere fun is => other (is ▸ rfl)⟩
    cases is
    exact here rfl

theorem ThreadMove.node_eq_none {nid tid nextCtx : Nat} {shouldStop : Bool}
    {input : Input} {pc : SamplerPc} {after : ThreadStep}
    (move : ThreadMove nid tid shouldStop nextCtx input pc none after) :
    after.node = none := by
  cases move <;> rfl

/-! ### The entry -/

/-- The energy entry of each node holds the last reading of the run so far. -/
def EntryInv (trace : List (ModuleState × ModuleAction)) (s : ModuleState) : Prop :=
  ∀ nid node, s.xstatNodes nid = some node →
    node.ctxs energyIndex = .word (lastEnergyReading (energyCalls nid trace))

theorem lastEnergyReading_concat (calls : List (Word × Word)) (call : Word × Word) :
    lastEnergyReading (calls ++ [call]) = call.1 := by
  simp [lastEnergyReading]

/-- A step that calls `energy_restart` on no node of its own reads nothing there. -/
theorem energyCalls_snoc (nid : Nat) (trace : List (ModuleState × ModuleAction))
    (x : ModuleState × ModuleAction) :
    energyCalls nid (trace ++ [x]) = energyCalls nid trace ++ (energyCall nid x).toList := by
  rw [energyCalls, List.filterMap_append]
  cases call : energyCall nid x <;> simp [energyCalls, call]

theorem energyCall_sampler {s : ModuleState} {tid : Nat} {th : Sampler}
    (thread : s.samplers tid = some th) (nid : Nat) (input : Input) :
    energyCall nid (s, .sampler tid input) = (s.xstatNodes nid).bind fun node =>
      if th.nid = nid ∧ th.pc = .restart energyIndex then
        some (input.energyStatus, energyDelta (node.ctxs energyIndex).value input.energyStatus)
      else none := by
  simp [energyCall, thread, energyRestart_eq]

section Steps

variable {maxNumnodes : Nat} {s s' : ModuleState} {trace : List (ModuleState × ModuleAction)}

/-- A call subtracts the last reading. -/
theorem EntryInv.call_eq (entry : EntryInv trace s) {nid : Nat} {a : ModuleAction} {call : Word × Word}
    (made : energyCall nid (s, a) = some call) :
    call.2 = energyDelta (lastEnergyReading (energyCalls nid trace)) call.1 := by
  cases a with
  | sampler tid input =>
    cases thread : s.samplers tid with
    | none => simp [energyCall, thread] at made
    | some th =>
      rw [energyCall_sampler thread, Option.bind_eq_some_iff] at made
      obtain ⟨node, there, step⟩ := made
      obtain ⟨_, step⟩ := Option.ite_none_right_eq_some.mp step
      cases step
      rw [entry nid node there]
      rfl
  | _ => cases made

/-- **One step**: the entry gets the reading of the call that the step makes, if it makes one. -/
theorem EntryInv.step (entry : EntryInv trace s) {a : ModuleAction}
    (taken : s.step maxNumnodes a = some s') : EntryInv (trace ++ [(s, a)]) s' := by
  have quiet : ∀ nid (node' node : XstatNode), s.xstatNodes nid = some node →
      node'.ctxs energyIndex = node.ctxs energyIndex → energyCall nid (s, a) = none →
        node'.ctxs energyIndex = .word (lastEnergyReading (energyCalls nid (trace ++ [(s, a)]))) := by
    intro nid node' node there same none
    rw [energyCalls_snoc, none, Option.toList_none, List.append_nil, same]
    exact entry nid node there
  intro nid node' there
  by_cases thread : ∃ tid input, a = .sampler tid input
  · obtain ⟨tid, input, rfl⟩ := thread
    cases move_of_step taken with
    | @sampler _ _ th after thread move =>
      change (s.setNode th.nid after.node).xstatNodes nid = some node' at there
      rw [xstatNodes_setNode] at there
      have called := energyCall_sampler thread nid input
      by_cases own : nid = th.nid
      · rw [if_pos own] at there
        subst own
        cases before : s.xstatNodes th.nid with
        | none =>
          rw [before] at move
          rw [move.node_eq_none] at there
          cases there
        | some node =>
          rw [before] at move called
          obtain ⟨found, node_eq, reads, keeps⟩ := move.energyEntry
          rw [node_eq] at there
          cases there
          by_cases here : th.pc = .restart energyIndex
          · rw [energyCalls_snoc, called, Option.bind_some, if_pos ⟨rfl, here⟩, Option.toList_some,
              lastEnergyReading_concat]
            exact (reads here).1
          · refine quiet _ _ node before (keeps here) ?_
            rw [called, Option.bind_some, if_neg fun both => here both.2]
      · rw [if_neg own] at there
        refine quiet nid node' node' there rfl ?_
        rw [called, there, Option.bind_some, if_neg fun both => own both.1.symm]
  · have other : ∀ tid input, a ≠ .sampler tid input := fun tid input is => thread ⟨tid, input, is⟩
    obtain ⟨node, before, move⟩ := nodeMove_of_step taken other there
    refine quiet nid node' node before (congrFun move.sameContexts.1 _) ?_
    cases a with
    | sampler tid input => exact absurd rfl (other tid input)
    | _ => rfl

end Steps

theorem entryInv_xstatInit (maxNumnodes : Nat) (nodeOnline : Nat → Bool) :
    EntryInv [] (xstatInit maxNumnodes nodeOnline) := by
  intro nid node there
  obtain ⟨_, step⟩ := Option.ite_none_right_eq_some.mp there
  cases step
  rfl

/-- Every result of a run but the first subtracts the reading before it. -/
theorem energyCalls_chain {maxNumnodes : Nat} {nodeOnline : Nat → Bool}
    {trace : List (ModuleState × ModuleAction)} {s : ModuleState}
    (run : Run (ModuleState.step maxNumnodes) (xstatInit maxNumnodes nodeOnline) trace s) (nid : Nat) :
    EntryInv trace s ∧
      (energyCalls nid trace).IsChain fun prev this => this.2 = energyDelta prev.1 this.1 := by
  induction run with
  | nil => exact ⟨entryInv_xstatInit maxNumnodes nodeOnline, .nil⟩
  | @snoc trace s s' a _ taken ih =>
    obtain ⟨entry, chain⟩ := ih
    refine ⟨entry.step taken, ?_⟩
    rw [energyCalls_snoc]
    cases made : energyCall nid (s, a) with
    | none => simpa using chain
    | some call =>
      refine List.isChain_append.mpr ⟨chain, List.isChain_singleton _, ?_⟩
      intro prev last next first
      simp only [Option.toList_some, List.head?_cons, Option.mem_def, Option.some.injEq] at first
      subst first
      have result := entry.call_eq made
      rw [lastEnergyReading, last] at result
      exact result

/-! ### Sums -/

/-- The energy consumed so far at each of the calls, of which the register shows the low 32 bits, and
which advances by less than a turn of the counter from one call to the next. -/
structure Consumed (calls : List (Word × Word)) (energy : List Nat) : Prop where
  shown : List.Forall₂ (fun call total => low32 call.1 = total % 2 ^ 32) calls energy
  advances : energy.IsChain fun prev this => prev ≤ this ∧ this < prev + 2 ^ 32

/-- The results after the first are exact, and they add up to the energy consumed meanwhile. -/
structure EnergyAddsUp (calls : List (Word × Word)) : Prop where
  exact : calls.IsChain fun prev this => EnergyExact prev.1 this.1 this.2
  total : ∀ {first last energy}, Consumed calls energy → energy.head? = some first →
    energy.getLast? = some last → first + (calls.tail.map fun call => call.2.toNat).sum = last

/-- Exact results add up. -/
theorem sum_of_exact {calls : List (Word × Word)} {energy : List Nat} {first last : Nat}
    (exact : calls.IsChain fun prev this => EnergyExact prev.1 this.1 this.2)
    (consumed : Consumed calls energy) (head : energy.head? = some first)
    (final : energy.getLast? = some last) :
    first + (calls.tail.map fun call => call.2.toNat).sum = last := by
  obtain ⟨shown, advances⟩ := consumed
  induction shown generalizing first with
  | nil => cases head
  | @cons call total calls energy here later ih =>
    cases head
    cases later with
    | nil =>
      cases final
      rfl
    | @cons next following calls energy shownNext later =>
      obtain ⟨result, exact⟩ := List.isChain_cons_cons.mp exact
      obtain ⟨⟨low, high⟩, advances⟩ := List.isChain_cons_cons.mp advances
      have rest := ih exact rfl (by simpa using final) advances
      have step : next.2.toNat = following - total := by
        rw [result.1, here, shownNext]
        omega
      simp only [List.tail_cons, List.map_cons, List.sum_cons] at rest ⊢
      omega

/-- Of linked elements two relations hold alike if they are equivalent where the link holds. -/
theorem isChain_congr_of_isChain {α : Type} {link R S : α → α → Prop} {l : List α}
    (linked : l.IsChain link) (alike : ∀ x y, link x y → (R x y ↔ S x y)) :
    l.IsChain R ↔ l.IsChain S := by
  induction linked with
  | nil => simp
  | singleton x => simp
  | cons_cons here _ ih => rw [List.isChain_cons_cons, List.isChain_cons_cons, alike _ _ here, ih]

/-- **Energy adds up exactly where the upper halves are harmless.** In every run of the module, across
any stops and restarts, and for every node: each result of `energy_restart` after the first is the
advance of the 32-bit counter since the previous reading, and the results add up to the energy consumed,
if and only if of each reading but the last the upper half is zero, or is one and the counter does not
wrap before the next reading. -/
theorem energy_adds_up_iff {maxNumnodes : Nat} {nodeOnline : Nat → Bool}
    {trace : List (ModuleState × ModuleAction)} {s : ModuleState}
    (run : Run (ModuleState.step maxNumnodes) (xstatInit maxNumnodes nodeOnline) trace s) (nid : Nat) :
    EnergyAddsUp (energyCalls nid trace) ↔
      (energyCalls nid trace).IsChain fun prev this => UpperHarmless prev.1 this.1 := by
  have chain := (energyCalls_chain run nid).2
  have alike := isChain_congr_of_isChain (R := fun prev this => EnergyExact prev.1 this.1 this.2)
    (S := fun prev this => UpperHarmless prev.1 this.1) chain fun prev this result => by
      rw [result]
      exact energyExact_iff prev.1 this.1
  rw [← alike]
  exact ⟨EnergyAddsUp.exact, fun exact => ⟨exact, fun consumed => sum_of_exact exact consumed⟩⟩

/-- A node is switched on and sampled twice, the energy register showing `first` and then `second`. -/
def energyTwice (first second : Word) : List ModuleAction :=
  [.storeCtrlAttr "on".toList, .startStat true, .startStat true] ++
    (List.range 51).map fun k => .sampler 0 { (default : Input) with
      energyStatus := if k < 40 then first else second }

/-- With the lowest bit of the upper half set and no wrap, two readings add up. -/
theorem energy_adds_up_bit_set :
    ∃ trace s, Run (ModuleState.step 1) (xstatInit 1 fun _ => true) trace s ∧
      energyCalls 0 trace = [(0x100000005, 5), (0x100000007, 2)] ∧
      EnergyAddsUp (energyCalls 0 trace) := by
  have done : (exec (ModuleState.step 1) (xstatInit 1 fun _ => true)
      (energyTwice 0x100000005 0x100000007)).isSome := by decide +kernel
  have calls : energyCalls 0 (visits (ModuleState.step 1) (xstatInit 1 fun _ => true)
      (energyTwice 0x100000005 0x100000007)) = [(0x100000005, 5), (0x100000007, 2)] := by
    decide +kernel
  obtain ⟨s, reached⟩ := Option.isSome_iff_exists.mp done
  refine ⟨_, s, run_visits reached, calls, (energy_adds_up_iff (run_visits reached) 0).mpr ?_⟩
  rw [calls]
  exact List.isChain_pair.mpr (by decide)

/-- The counter moves by one and the result is nearly two to the 64. -/
theorem energy_result_too_large :
    ¬ ∀ (maxNumnodes : Nat) (nodeOnline : Nat → Bool) trace s nid,
      Run (ModuleState.step maxNumnodes) (xstatInit maxNumnodes nodeOnline) trace s →
        EnergyAddsUp (energyCalls nid trace) := by
  intro always
  have done : (exec (ModuleState.step 1) (xstatInit 1 fun _ => true)
      (energyTwice 0x200000005 0x200000006)).isSome := by decide +kernel
  have calls : energyCalls 0 (visits (ModuleState.step 1) (xstatInit 1 fun _ => true)
      (energyTwice 0x200000005 0x200000006)) =
        [(0x200000005, 5), (0x200000006, 0xffffffff00000001)] := by
    decide +kernel
  obtain ⟨s, reached⟩ := Option.isSome_iff_exists.mp done
  have exact := (always 1 (fun _ => true) _ s 0 (run_visits reached)).exact
  rw [calls] at exact
  have bound := (List.isChain_pair.mp exact).2
  exact absurd bound (by decide)

end Xstats.Xstat
