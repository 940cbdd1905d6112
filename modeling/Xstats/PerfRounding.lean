/-
**The totals of `perf_restart`** (`hpc_cnt.c`, `stat.c`), **in floating point**.

The scaling is done in `double`, so that what a CPU adds need not be the scaled delta rounded half up. It
is where the event ran all the time; otherwise it may be off by one, and a delta at the threshold may be
taken for one above it, or the other way round.

* `contributionIn_near`: what a CPU adds in floating point and in exact arithmetic.
* `contributionIn_of_advances`: where the event ran all the time, these are the same.
* `perf_totals_rounded`: what this means for the totals of calls in a row.
-/

import Xstats.Lib.RelativeError
import Xstats.PerfTotals

namespace Xstats

open PerfEventValue

variable (ρ : Rounding)

/-! ### One CPU -/

/-- The scaled delta in the arithmetic `ρ`. -/
def scaledDeltaIn (last ret : PerfEventValue) : Nat :=
  scaledCount ρ (ret.total - last.total) (ret.enabled - last.enabled) (ret.running - last.running)

/-- A reading that adds nothing in the arithmetic `ρ`. -/
def RejectedIn (last ret : PerfEventValue) : Prop :=
  ret.total < last.total ∨ ret.enabled < last.enabled ∨ ret.running ≤ last.running ∨
    perfOverflowThreshold < scaledDeltaIn ρ last ret

instance (last ret : PerfEventValue) : Decidable (RejectedIn ρ last ret) :=
  inferInstanceAs (Decidable (_ ∨ _))

/-- A reading whose counters went back, or whose event did not run. -/
theorem rejectedIn_of_back {last ret : PerfEventValue}
    (back : ret.total < last.total ∨ ret.enabled < last.enabled ∨ ret.running ≤ last.running) :
    RejectedIn ρ last ret := by
  unfold RejectedIn
  tauto

/-- Every other reading is rejected for its scaled delta alone. -/
theorem rejectedIn_iff {last ret : PerfEventValue}
    (forward : ¬ (ret.total < last.total ∨ ret.enabled < last.enabled ∨
      ret.running ≤ last.running)) :
    RejectedIn ρ last ret ↔ perfOverflowThreshold < scaledDeltaIn ρ last ret := by
  unfold RejectedIn
  tauto

/-- What a CPU adds to a total in the arithmetic `ρ`. -/
def contributionIn (last : Option PerfEventValue) (ret : PerfEventValue) : Nat :=
  match last with
  | some last => if RejectedIn ρ last ret then 0 else scaledDeltaIn ρ last ret
  | none => 0

theorem contributionIn_exact (last : Option PerfEventValue) (ret : PerfEventValue) :
    contributionIn .exact last ret = contribution last ret := rfl

theorem contributionIn_le (last : Option PerfEventValue) (ret : PerfEventValue) :
    contributionIn ρ last ret ≤ perfOverflowThreshold := by
  unfold contributionIn
  split
  · split
    · exact Nat.zero_le _
    · rename_i accepted
      exact Nat.le_of_not_lt fun above => accepted (.inr (.inr (.inr above)))
  · exact Nat.zero_le _

/-- **One iteration** of `perf_restart`. -/
theorem scaled_eq_contributionIn (last ret : PerfEventValue) :
    scaled ρ last ret = BitVec.ofNat 64 (contributionIn ρ (some last) ret) := by
  have count : scaledCount ρ (ret.total - last.total) (ret.enabled - last.enabled)
      (ret.running - last.running) = scaledDeltaIn ρ last ret := rfl
  simp only [scaled, contributionIn, count]
  by_cases back : ret.total < last.total ∨ ret.enabled < last.enabled ∨ ret.running ≤ last.running
  · rw [if_pos back, if_pos (rejectedIn_of_back ρ back)]
    rfl
  · have same := rejectedIn_iff ρ back
    rw [if_neg back]
    by_cases above : perfOverflowThreshold < scaledDeltaIn ρ last ret
    · rw [if_pos above, if_pos (same.mpr above)]
      rfl
    · rw [if_neg above, if_neg (mt same.mp above)]

/-- The scaled delta is at the threshold, or one above it. -/
def AtThreshold (last ret : PerfEventValue) : Prop :=
  scaledDelta last ret = perfOverflowThreshold ∨ scaledDelta last ret = perfOverflowThreshold + 1

theorem pos_of_lt {first second : BitVec 64} (lt : first < second) :
    (0 : ℚ) < (second - first).toNat := by
  have moved := BitVec.lt_def.mp lt
  rw [BitVec.toNat_sub_of_le (BitVec.le_of_lt lt)]
  exact_mod_cast Nat.sub_pos_of_lt moved

/-- The two scaled deltas are at most one apart, or both above the threshold. -/
theorem scaledDeltaIn_near {last ret : PerfEventValue} (running : last.running < ret.running) :
    (scaledDeltaIn ρ last ret ≤ scaledDelta last ret + 1 ∧
        scaledDelta last ret ≤ scaledDeltaIn ρ last ret + 1) ∨
      (perfOverflowThreshold < scaledDelta last ret ∧
        perfOverflowThreshold < scaledDeltaIn ρ last ret) := by
  have threshold : perfOverflowThreshold < 2 ^ 41 := by decide
  have near := ρ.within_scaled (ret.total - last.total).toNat.cast_nonneg
    (ret.enabled - last.enabled).toNat.cast_nonneg (pos_of_lt running)
  exact (near.floor_near (by positivity)).imp id fun large =>
    ⟨threshold.trans_le large.1, threshold.trans_le large.2⟩

/-- **What a CPU adds** in floating point is off by at most one, away from the threshold. -/
theorem contributionIn_near {last : Option PerfEventValue} {ret : PerfEventValue}
    (away : ∀ value ∈ last, ¬ AtThreshold value ret) :
    contributionIn ρ last ret ≤ contribution last ret + 1 ∧
      contribution last ret ≤ contributionIn ρ last ret + 1 := by
  cases last with
  | none => exact ⟨Nat.zero_le _, Nat.zero_le _⟩
  | some last =>
    have away := away last rfl
    unfold AtThreshold at away
    simp only [contributionIn, contribution]
    by_cases back : ret.total < last.total ∨ ret.enabled < last.enabled ∨ ret.running ≤ last.running
    · have rejected : RejectedIn ρ last ret := rejectedIn_of_back ρ back
      have rejectedExact : Rejected last ret := rejectedIn_of_back .exact back
      rw [if_pos rejected, if_pos rejectedExact]
      omega
    · have running : last.running < ret.running := BitVec.not_le.mp fun le => back (.inr (.inr le))
      have rejected : RejectedIn ρ last ret ↔ perfOverflowThreshold < scaledDeltaIn ρ last ret :=
        rejectedIn_iff ρ back
      have rejectedExact : Rejected last ret ↔ perfOverflowThreshold < scaledDelta last ret :=
        rejectedIn_iff .exact back
      have near := scaledDeltaIn_near ρ running
      simp only [rejected, rejectedExact]
      split <;> split <;> omega

/-- Where the event ran all the time, what a CPU adds is what was counted, in any arithmetic. -/
theorem contributionIn_of_advances {last ret : PerfEventValue} (advances : Advances last ret) :
    contributionIn ρ (some last) ret = contribution (some last) ret := by
  obtain ⟨total, running, enabled, small⟩ := advances
  have runningLt := BitVec.lt_def.mp running
  have enabledLe : last.enabled ≤ ret.enabled := by
    rw [BitVec.le_def]
    omega
  have clocks : ret.enabled - last.enabled = ret.running - last.running := by
    apply BitVec.eq_of_toNat_eq
    rw [BitVec.toNat_sub_of_le enabledLe, BitVec.toNat_sub_of_le (BitVec.le_of_lt running)]
    omega
  have counted : (ret.total - last.total).toNat ≤ 2 ^ 41 := by
    rw [BitVec.toNat_sub_of_le total]
    exact small.trans (by decide)
  -- the count is not changed by scaling it by one
  have delta : ∀ σ : Rounding, scaledDeltaIn σ last ret = (ret.total - last.total).toNat := by
    intro σ
    rw [scaledDeltaIn, clocks]
    exact σ.scaled_eq counted (pos_of_lt running)
  rw [← contributionIn_exact]
  simp only [contributionIn, RejectedIn, delta]

/-! ### All CPUs -/

namespace Bank

variable {n : Nat}

/-- The sum over the CPUs in the arithmetic `ρ`. -/
def totalIn (stored : Bank n) (sample : Fin n → PerfEventValue) : Nat :=
  ∑ cpu, contributionIn ρ (stored cpu) (sample cpu)

/-- No scaled delta of the call is at the threshold. -/
def Away (stored : Bank n) (sample : Fin n → PerfEventValue) : Prop :=
  ∀ cpu, ∀ last ∈ stored cpu, ¬ AtThreshold last (sample cpu)

theorem totalIn_le (stored : Bank n) (sample : Fin n → PerfEventValue) :
    stored.totalIn ρ sample ≤ n * perfOverflowThreshold :=
  calc ∑ cpu, contributionIn ρ (stored cpu) (sample cpu)
      ≤ ∑ _cpu : Fin n, perfOverflowThreshold := Finset.sum_le_sum fun _ _ => contributionIn_le ρ _ _
    _ = n * perfOverflowThreshold := by rw [Finset.sum_const, Finset.card_fin, smul_eq_mul]

/-- A total is off by at most one for each CPU. -/
theorem totalIn_near {stored : Bank n} {sample : Fin n → PerfEventValue} (away : stored.Away sample) :
    stored.totalIn ρ sample ≤ stored.total sample + n ∧
      stored.total sample ≤ stored.totalIn ρ sample + n := by
  have near := fun cpu => contributionIn_near ρ (away cpu)
  have each : ∀ f : Fin n → Nat, ∑ cpu, (f cpu + 1) = (∑ cpu, f cpu) + n := by
    intro f
    rw [Finset.sum_add_distrib, Finset.sum_const, Finset.card_fin, smul_eq_mul, mul_one]
  constructor
  · exact (Finset.sum_le_sum fun cpu _ => (near cpu).1).trans_eq (each _)
  · exact (Finset.sum_le_sum fun cpu _ => (near cpu).2).trans_eq (each _)

theorem totalIn_of_advances {stored : Bank n} {sample : Fin n → PerfEventValue}
    (advances : ∀ cpu, ∀ last ∈ stored cpu, Advances last (sample cpu)) :
    stored.totalIn ρ sample = stored.total sample := by
  refine Finset.sum_congr rfl fun cpu _ => ?_
  cases held : stored cpu with
  | none => rfl
  | some last => exact contributionIn_of_advances ρ (advances cpu last held)

/-- What the calls of a run return. -/
def expectedIn (stored : Bank n) : List (Fin n → PerfEventValue) → List Nat
  | [] => []
  | sample :: rest => stored.totalIn ρ sample :: (stored.after sample).expectedIn rest

/-- No scaled delta of the run is at the threshold. -/
def AwayAll (stored : Bank n) : List (Fin n → PerfEventValue) → Prop
  | [] => True
  | sample :: rest => stored.Away sample ∧ (stored.after sample).AwayAll rest

theorem expectedIn_le (stored : Bank n) (samples : List (Fin n → PerfEventValue)) :
    ∀ total ∈ stored.expectedIn ρ samples, total ≤ n * perfOverflowThreshold := by
  induction samples generalizing stored with
  | nil => exact fun _ member => by cases member
  | cons sample rest ih =>
    intro total member
    rcases List.mem_cons.mp member with rfl | later
    · exact stored.totalIn_le ρ sample
    · exact ih _ total later

theorem expectedIn_near {stored : Bank n} {samples : List (Fin n → PerfEventValue)}
    (away : stored.AwayAll samples) :
    List.Forall₂ (fun total exact => total ≤ exact + n ∧ exact ≤ total + n)
      (stored.expectedIn ρ samples) (stored.expected samples) := by
  induction samples generalizing stored with
  | nil => exact .nil
  | cons sample rest ih =>
    rw [expected_cons]
    exact .cons (totalIn_near ρ away.1) (ih away.2)

theorem expectedIn_of_advancing {stored : Bank n} {samples : List (Fin n → PerfEventValue)}
    (advancing : stored.Advancing samples) : stored.expectedIn ρ samples = stored.expected samples := by
  induction samples generalizing stored with
  | nil => rfl
  | cons sample rest ih =>
    obtain ⟨first, later⟩ := advancing_cons advancing
    rw [expected_cons, expectedIn, totalIn_of_advances ρ first, ih later]

end Bank

/-- What is to hold of the totals that calls of `perf_restart` return in a row in the arithmetic `ρ`. -/
structure AggregatesIn {n : Nat} {R : Type} (stored : Bank n) (view : R → Fin n → PerfEventValue)
    (totals : List R → List (BitVec 64)) : Prop where
  bounded : ∀ samples, ∀ total ∈ totals samples, total.toNat ≤ n * perfOverflowThreshold
  /-- Each is off by at most one for each CPU, unless a scaled delta is at the threshold. -/
  near : ∀ samples, stored.AwayAll (samples.map view) →
    List.Forall₂ (fun total exact => total ≤ exact + n ∧ exact ≤ total + n)
      ((totals samples).map BitVec.toNat) (stored.expected (samples.map view))
  /-- Where all events ran all the time, nothing is lost or added by the rounding. -/
  telescopes : ∀ samples, stored.Advancing (samples.map view) →
    ((totals samples).map BitVec.toNat).sum + stored.counts = (stored.final (samples.map view)).counts

theorem aggregatesIn_of_each {n : Nat} {R : Type} {stored : Bank n}
    {view : R → Fin n → PerfEventValue} {totals : List R → List (BitVec 64)}
    (each : ∀ samples, (totals samples).map BitVec.toNat = stored.expectedIn ρ (samples.map view)) :
    AggregatesIn stored view totals where
  bounded := fun samples total member =>
    stored.expectedIn_le ρ _ _ (each samples ▸ List.mem_map_of_mem member)
  near := fun samples away => by
    rw [each]
    exact Bank.expectedIn_near ρ away
  telescopes := fun samples advancing => by
    rw [each, Bank.expectedIn_of_advancing ρ advancing]
    exact Bank.sum_expected advancing

/-! ### xstat -/

namespace Xstat.PerfCounterContext

variable {ε : Type} {n : Nat}

/-- **A call of xstat's `perf_restart`.** -/
theorem toNat_perfRestart_eq (fits : n * perfOverflowThreshold < 2 ^ 64) (ctx : PerfCounterContext ε)
    (read : ε → PerfEventValue) (length : ctx.events.length = n) :
    (ctx.perfRestart ρ read).2.toNat = (ctx.stored n).totalIn ρ (ctx.view n read) := by
  let added := fun entry : PerfCounterPerCpu ε =>
    contributionIn ρ (entry.event.map fun _ => entry.value) ((entry.event.map read).getD .zero)
  have words : ctx.events.map (fun entry => (restartEntry ρ read entry).2) =
      ctx.events.map fun entry => BitVec.ofNat 64 (added entry) := by
    refine List.map_congr_left fun entry _ => ?_
    simp only [restartEntry, added]
    cases entry.event with
    | none => rfl
    | some event => exact scaled_eq_contributionIn ρ _ _
  have sum : (ctx.events.map added).sum = (ctx.stored n).totalIn ρ (ctx.view n read) := by
    subst length
    rw [Bank.totalIn, ← Fin.sum_univ_fun_getElem]
    refine Finset.sum_congr rfl fun i _ => ?_
    simp only [stored, view, added, List.getElem?_eq_getElem i.isLt, Option.bind_some]
  have small := (Bank.totalIn_le ρ (ctx.stored n) (ctx.view n read)).trans_lt fits
  rw [perfRestart, words, toNat_sum_ofNat _ _ (sum ▸ small), sum]

theorem toNat_totals_eq (fits : n * perfOverflowThreshold < 2 ^ 64) (ctx : PerfCounterContext ε)
    (length : ctx.events.length = n) (samples : List (ε → PerfEventValue)) :
    (ctx.totals ρ samples).map BitVec.toNat =
      (ctx.stored n).expectedIn ρ (samples.map (ctx.view n)) := by
  induction samples generalizing ctx with
  | nil => rfl
  | cons read rest ih =>
    have later := ih (ctx.perfRestart ρ read).1 ((length_perfRestart ..).trans length)
    rw [stored_perfRestart, view_perfRestart] at later
    rw [totals, List.map_cons, List.map_cons, Bank.expectedIn, later,
      toNat_perfRestart_eq ρ fits ctx read length]

end Xstat.PerfCounterContext

/-! ### haswellstat, sbstat and micstat -/

namespace Haswellstat.PerfEvents

variable {n : Nat}

/-- **A call of haswellstat's `perf_restart`.** -/
theorem toNat_perfRestart_eq (fits : n * perfOverflowThreshold < 2 ^ 64) (s : PerfEvents)
    (counter : Nat) (read : Nat → PerfEventValue) :
    (s.perfRestart ρ n read counter).1.toNat =
      (s.stored n counter).totalIn ρ fun cpu => read cpu := by
  let added := fun cpu : Nat =>
    contributionIn ρ ((s.events counter cpu).map fun _ => s.values counter cpu) (read cpu)
  have sum : ((List.range n).map added).sum = (s.stored n counter).totalIn ρ fun cpu => read cpu := by
    have range : ((List.range n).map added).sum = ∑ cpu ∈ Finset.range n, added cpu := rfl
    rw [range, Finset.sum_range]
    rfl
  have words : (List.range n).map (fun cpu => if (s.events counter cpu).isSome then
        (s.values counter cpu).scaled ρ (read cpu) else 0) =
      (List.range n).map fun cpu => BitVec.ofNat 64 (added cpu) := by
    refine List.map_congr_left fun cpu _ => ?_
    cases held : s.events counter cpu with
    | none => simp [added, held, contributionIn]
    | some event => simp [added, held, scaled_eq_contributionIn]
  have small := (Bank.totalIn_le ρ (s.stored n counter) fun cpu => read cpu).trans_lt fits
  rw [perfRestart_eq, words, toNat_sum_ofNat _ _ (sum ▸ small), sum]

theorem toNat_totals_eq (fits : n * perfOverflowThreshold < 2 ^ 64) (s : PerfEvents) (counter : Nat)
    (samples : List (Nat → PerfEventValue)) :
    (s.totals ρ n counter samples).map BitVec.toNat =
      (s.stored n counter).expectedIn ρ (samples.map fun read cpu => read cpu) := by
  induction samples generalizing s with
  | nil => rfl
  | cons read rest ih =>
    have later := ih (s.perfRestart ρ n read counter).2
    rw [stored_perfRestart] at later
    rw [totals, List.map_cons, List.map_cons, Bank.expectedIn, later, toNat_perfRestart_eq ρ fits]

end Haswellstat.PerfEvents

/-! ### The code -/

/-- **The totals of `perf_restart` in floating point**, in xstat and in haswellstat, whatever format the
scaling is evaluated in, for any number of CPUs whose thresholds together fit into 64 bits, of which any
may lack an event, and for any readings: a total does not exceed the thresholds together, is off from the
exact one by at most one for each CPU unless a scaled delta is at the threshold, and in a run in which all
events ran all the time the totals come to exactly what was counted. -/
theorem perf_totals_rounded {n : Nat} (fits : n * perfOverflowThreshold < 2 ^ 64) :
    (∀ (ε : Type) (ctx : Xstat.PerfCounterContext ε), ctx.events.length = n →
      AggregatesIn (ctx.stored n) (ctx.view n) (ctx.totals ρ)) ∧
    ∀ (s : Haswellstat.PerfEvents) (counter : Nat),
      AggregatesIn (s.stored n counter) (fun read cpu => read cpu) (s.totals ρ n counter) :=
  ⟨fun _ ctx length => aggregatesIn_of_each ρ fun samples => ctx.toNat_totals_eq ρ fits length samples,
    fun s counter => aggregatesIn_of_each ρ fun samples => s.toNat_totals_eq ρ fits counter samples⟩

/-- Two CPUs, of which the second has no event. The first counted five while it ran for two thirds of the
time, which makes seven and a half. -/
theorem perf_totals_rounded_multiplexed :
    let s : Haswellstat.PerfEvents :=
      { Haswellstat.PerfEvents.start with events := fun _ cpu => if cpu = 0 then some 0 else none }
    ∃ total, s.totals .binary64 2 0 [fun _ => ⟨5, 3, 2⟩] = [total] ∧ 6 ≤ total.toNat ∧
      total.toNat ≤ 10 := by
  intro s
  obtain ⟨_, haswellstat⟩ := @perf_totals_rounded .binary64 2 (by decide)
  have exact : scaledDelta .zero ⟨5, 3, 2⟩ = 8 := by decide +kernel
  have away : (s.stored 2 0).AwayAll [fun _ => ⟨5, 3, 2⟩] := by
    refine ⟨fun cpu last held => ?_, trivial⟩
    fin_cases cpu
    · cases held
      rintro (same | same) <;> exact absurd (exact.symm.trans same) (by decide)
    · cases held
  have total : (s.stored 2 0).expected [fun _ => ⟨5, 3, 2⟩] = [8] := by decide +kernel
  have near := (haswellstat s 0).near [fun _ => ⟨5, 3, 2⟩] away
  rw [List.map_singleton, total] at near
  obtain ⟨low, high⟩ := (List.forall₂_cons.mp near).1
  exact ⟨_, rfl, by omega, low⟩

end Xstats
