/-
**The totals of `perf_restart`** (`hpc_cnt.c`, `stat.c`), in exact arithmetic.

A bank is what `perf_restart` keeps: for each CPU that has an event its last reading. What a call adds
for a CPU depends on this and the new reading alone, and the new reading is kept whether or not it is
added.

* `scaled_eq_contribution`: what an iteration adds is the scaled delta, or nothing.
* `Bank.sum_expected`: over a run of readings that advance the sums telescope.
* `Bank.expected_set`: a reading has a part in its own total and the next.
* `perf_totals_add_up`: the totals of xstat and of haswellstat are those of a bank, and do not wrap.
-/

import Xstats.Hardware
import Xstats.Haswellstat.RollBuffer
import Xstats.Xstat.PerfContext

namespace Xstats

open PerfEventValue

/-! ### One CPU -/

/-- The events counted between two readings, scaled up by the share of the time in which the event was
running, and rounded half up. -/
def scaledDelta (last ret : PerfEventValue) : Nat :=
  ⌊((ret.total - last.total).toNat * (ret.enabled - last.enabled).toNat /
    (ret.running - last.running).toNat + 1 / 2 : ℚ)⌋₊

/-- A reading that adds nothing. -/
def Rejected (last ret : PerfEventValue) : Prop :=
  ret.total < last.total ∨ ret.enabled < last.enabled ∨ ret.running ≤ last.running ∨
    perfOverflowThreshold < scaledDelta last ret

instance (last ret : PerfEventValue) : Decidable (Rejected last ret) :=
  inferInstanceAs (Decidable (_ ∨ _))

/-- What a CPU adds to a total, by its last reading, if it has an event, and the new one. -/
def contribution (last : Option PerfEventValue) (ret : PerfEventValue) : Nat :=
  match last with
  | some last => if Rejected last ret then 0 else scaledDelta last ret
  | none => 0

theorem contribution_le (last : Option PerfEventValue) (ret : PerfEventValue) :
    contribution last ret ≤ perfOverflowThreshold := by
  unfold contribution
  split
  · split
    · exact Nat.zero_le _
    · rename_i accepted
      exact Nat.le_of_not_lt fun above => accepted (.inr (.inr (.inr above)))
  · exact Nat.zero_le _

/-- **One iteration** of `perf_restart`. -/
theorem scaled_eq_contribution (last ret : PerfEventValue) :
    scaled .exact last ret = BitVec.ofNat 64 (contribution (some last) ret) := by
  have count : scaledCount .exact (ret.total - last.total) (ret.enabled - last.enabled)
      (ret.running - last.running) = scaledDelta last ret := rfl
  rw [contribution, scaled, count]
  by_cases back : ret.total < last.total ∨ ret.enabled < last.enabled ∨ ret.running ≤ last.running
  · have rejected : Rejected last ret := by
      unfold Rejected
      tauto
    rw [if_pos back, if_pos rejected]
    rfl
  · have same : Rejected last ret ↔ scaledDelta last ret > perfOverflowThreshold := by
      unfold Rejected
      tauto
    rw [if_neg back]
    by_cases above : scaledDelta last ret > perfOverflowThreshold
    · rw [if_pos above, if_pos (same.mpr above)]
      rfl
    · rw [if_neg above, if_neg (mt same.mp above)]

/-- An iteration of `perf_restart` in which a division by zero is an error. -/
def scaledChecked (ρ : Rounding) (last ret : PerfEventValue) : Option (BitVec 64) :=
  if ret.total < last.total ∨ ret.enabled < last.enabled ∨ ret.running ≤ last.running then some 0
  else
    let divisor := ρ.round (ret.running - last.running).toNat
    if divisor = 0 then none else some (scaled ρ last ret)

/-- **No iteration divides by zero**, whatever the arithmetic. -/
theorem scaledChecked_eq (ρ : Rounding) (last ret : PerfEventValue) :
    scaledChecked ρ last ret = some (scaled ρ last ret) := by
  unfold scaledChecked
  split
  · rw [scaled, if_pos ‹_›]
  · rename_i forward
    have later : ¬ ret.running ≤ last.running := fun le => forward (.inr (.inr le))
    have moved : 0 < (ret.running - last.running).toNat := by
      have lt := BitVec.lt_def.mp (BitVec.not_le.mp later)
      rw [BitVec.toNat_sub_of_le (BitVec.le_of_lt (BitVec.not_le.mp later))]
      omega
    have divisor := ρ.round_pos (show (0 : ℚ) < (ret.running - last.running).toNat by exact_mod_cast moved)
    exact if_neg divisor.ne'

/-- From one reading to the next: the value did not decrease, the two clocks advanced by the same amount,
and what was counted is within the threshold. -/
structure Advances (last ret : PerfEventValue) : Prop where
  total_le : last.total ≤ ret.total
  running_lt : last.running < ret.running
  enabled_eq : ret.enabled.toNat + last.running.toNat = last.enabled.toNat + ret.running.toNat
  small : ret.total.toNat - last.total.toNat ≤ perfOverflowThreshold

/-- A reading that advances adds what was counted. -/
theorem contribution_of_advances {last ret : PerfEventValue} (advances : Advances last ret) :
    contribution (some last) ret = ret.total.toNat - last.total.toNat := by
  obtain ⟨total, running, enabled, small⟩ := advances
  have runningLt := BitVec.lt_def.mp running
  have enabledLe : last.enabled ≤ ret.enabled := by
    rw [BitVec.le_def]
    omega
  have counted := BitVec.toNat_sub_of_le total
  have ran := BitVec.toNat_sub_of_le (BitVec.le_of_lt running)
  have clocks : (ret.enabled - last.enabled).toNat = (ret.running - last.running).toNat := by
    rw [ran, BitVec.toNat_sub_of_le enabledLe]
    omega
  have delta : scaledDelta last ret = ret.total.toNat - last.total.toNat := by
    have time : (0 : ℚ) < (ret.running - last.running).toNat := by
      rw [ran]
      exact_mod_cast Nat.sub_pos_of_lt runningLt
    rw [← counted]
    unfold scaledDelta
    rw [clocks]
    exact Rounding.exact.scaled_eq (counted ▸ small.trans (by decide)) time
  have accepted : ¬ Rejected last ret := by
    rintro (back | back | back | above)
    · exact BitVec.not_lt.mpr total back
    · exact BitVec.not_lt.mpr enabledLe back
    · exact BitVec.not_le.mpr running back
    · omega
  rw [contribution, if_neg accepted, delta]

/-! ### All CPUs -/

/-- For each CPU the reading that is kept of its event, if it has one. -/
abbrev Bank (n : Nat) := Fin n → Option PerfEventValue

namespace Bank

variable {n : Nat}

/-- The bank after a call that read these values. -/
def after (stored : Bank n) (sample : Fin n → PerfEventValue) : Bank n :=
  fun cpu => (stored cpu).map fun _ => sample cpu

/-- The bank after several calls. -/
def final (stored : Bank n) (samples : List (Fin n → PerfEventValue)) : Bank n :=
  match samples.getLast? with
  | some sample => stored.after sample
  | none => stored

/-- The sum over the CPUs, in unbounded arithmetic. -/
def total (stored : Bank n) (sample : Fin n → PerfEventValue) : Nat :=
  ∑ cpu, contribution (stored cpu) (sample cpu)

/-- What the calls of a run are to return: each by the readings of the call before it and its own. -/
def expected (stored : Bank n) (samples : List (Fin n → PerfEventValue)) : List Nat :=
  List.zipWith total (stored :: samples.map stored.after) samples

/-- A run in which every reading of every event advances. -/
def Advancing (stored : Bank n) (samples : List (Fin n → PerfEventValue)) : Prop :=
  ∀ x ∈ List.zip (stored :: samples.map stored.after) samples,
    ∀ cpu, ∀ last ∈ x.1 cpu, Advances last (x.2 cpu)

/-- What the readings of a bank come to. -/
def counts (bank : Bank n) : Nat := ∑ cpu, ((bank cpu).map fun value => value.total.toNat).getD 0

@[simp] theorem after_after (stored : Bank n) (first second : Fin n → PerfEventValue) :
    (stored.after first).after second = stored.after second := by
  funext cpu
  exact Option.map_map ..

theorem expected_cons (stored : Bank n) (sample : Fin n → PerfEventValue)
    (rest : List (Fin n → PerfEventValue)) :
    stored.expected (sample :: rest) = stored.total sample :: (stored.after sample).expected rest := by
  have later : (stored.after sample).after = stored.after := funext fun _ => after_after ..
  rw [expected, expected, later]
  rfl

theorem advancing_cons {stored : Bank n} {sample : Fin n → PerfEventValue}
    {rest : List (Fin n → PerfEventValue)} (advancing : stored.Advancing (sample :: rest)) :
    (∀ cpu, ∀ last ∈ stored cpu, Advances last (sample cpu)) ∧
      (stored.after sample).Advancing rest := by
  have later : (stored.after sample).after = stored.after := funext fun _ => after_after ..
  refine ⟨advancing (stored, sample) List.mem_cons_self, ?_⟩
  unfold Advancing
  rw [later]
  exact fun x member => advancing x (List.mem_cons_of_mem _ member)

theorem final_cons (stored : Bank n) (sample : Fin n → PerfEventValue)
    (rest : List (Fin n → PerfEventValue)) :
    stored.final (sample :: rest) = (stored.after sample).final rest := by
  cases rest using List.reverseRecOn with
  | nil => rfl
  | append_singleton rest last =>
    rw [final, final, ← List.cons_append, List.getLast?_concat, List.getLast?_concat]
    exact (after_after stored sample last).symm

/-- The sum of a call and the readings before it are those after it. -/
theorem total_add_counts {stored : Bank n} {sample : Fin n → PerfEventValue}
    (advances : ∀ cpu, ∀ last ∈ stored cpu, Advances last (sample cpu)) :
    stored.total sample + stored.counts = (stored.after sample).counts := by
  rw [total, counts, counts, ← Finset.sum_add_distrib]
  refine Finset.sum_congr rfl fun cpu _ => ?_
  unfold after
  cases held : stored cpu with
  | none => rfl
  | some last =>
    have step := advances cpu last held
    have le := BitVec.le_def.mp step.total_le
    rw [contribution_of_advances step]
    exact Nat.sub_add_cancel le

/-- **The sums telescope** over a run of readings that advance. -/
theorem sum_expected {stored : Bank n} {samples : List (Fin n → PerfEventValue)}
    (advancing : stored.Advancing samples) :
    (stored.expected samples).sum + stored.counts = (stored.final samples).counts := by
  induction samples generalizing stored with
  | nil => exact Nat.zero_add _
  | cons sample rest ih =>
    obtain ⟨first, later⟩ := advancing_cons advancing
    have step := total_add_counts first
    have others := ih later
    rw [expected_cons, List.sum_cons, final_cons]
    omega

/-- A total does not exceed the threshold of each of its CPUs. -/
theorem total_le (stored : Bank n) (sample : Fin n → PerfEventValue) :
    stored.total sample ≤ n * perfOverflowThreshold :=
  calc ∑ cpu, contribution (stored cpu) (sample cpu)
      ≤ ∑ _cpu : Fin n, perfOverflowThreshold := Finset.sum_le_sum fun _ _ => contribution_le _ _
    _ = n * perfOverflowThreshold := by rw [Finset.sum_const, Finset.card_fin, smul_eq_mul]

/-- **One reading has a part in two totals**, its own and the next. -/
theorem expected_set (stored : Bank n) (samples : List (Fin n → PerfEventValue)) {j k : Nat}
    (bad : Fin n → PerfEventValue) (other : k ≠ j) (notNext : k ≠ j + 1) :
    (stored.expected (samples.set j bad))[k]? = (stored.expected samples)[k]? := by
  have own : (samples.set j bad)[k]? = samples[k]? := List.getElem?_set_ne other.symm
  have base : (stored :: (samples.set j bad).map stored.after)[k]? =
      (stored :: samples.map stored.after)[k]? := by
    cases k with
    | zero => rfl
    | succ k =>
      have apart : j ≠ k := fun same => notNext (same ▸ rfl)
      rw [List.getElem?_cons_succ, List.getElem?_cons_succ, List.getElem?_map, List.getElem?_map,
        List.getElem?_set_ne apart]
  rw [expected, expected, List.getElem?_zipWith, List.getElem?_zipWith, own, base]

theorem expected_le (stored : Bank n) (samples : List (Fin n → PerfEventValue)) :
    ∀ total ∈ stored.expected samples, total ≤ n * perfOverflowThreshold := by
  induction samples generalizing stored with
  | nil => exact fun _ member => by cases member
  | cons sample rest ih =>
    rw [expected_cons]
    intro total member
    rcases List.mem_cons.mp member with rfl | later
    · exact total_le stored sample
    · exact ih _ total later

end Bank

/-- What is to hold of the totals that calls of `perf_restart` return in a row, where `view` says what a
call reads on each CPU and `stored` what was kept before the first. -/
structure Aggregates {n : Nat} {R : Type} (stored : Bank n) (view : R → Fin n → PerfEventValue)
    (totals : List R → List (BitVec 64)) : Prop where
  /-- Each is the sum of what the CPUs contribute by their previous and their own readings. -/
  each : ∀ samples, (totals samples).map BitVec.toNat = stored.expected (samples.map view)
  bounded : ∀ samples, ∀ total ∈ totals samples, total.toNat ≤ n * perfOverflowThreshold
  /-- A reading has no part in any other total than its own and the next. -/
  contained : ∀ samples (j : Nat) bad (k : Nat), k ≠ j → k ≠ j + 1 →
    (totals (samples.set j bad))[k]? = (totals samples)[k]?
  /-- Together they are the last readings without those before the run. -/
  telescopes : ∀ samples, stored.Advancing (samples.map view) →
    ((totals samples).map BitVec.toNat).sum + stored.counts = (stored.final (samples.map view)).counts

theorem aggregates_of_each {n : Nat} {R : Type} {stored : Bank n} {view : R → Fin n → PerfEventValue}
    {totals : List R → List (BitVec 64)}
    (each : ∀ samples, (totals samples).map BitVec.toNat = stored.expected (samples.map view)) :
    Aggregates stored view totals where
  each := each
  bounded := fun samples total member =>
    stored.expected_le _ _ (each samples ▸ List.mem_map_of_mem member)
  contained := fun samples j bad k other notNext => by
    have injective : Function.Injective (BitVec.toNat : BitVec 64 → Nat) :=
      fun _ _ => BitVec.eq_of_toNat_eq
    apply Option.map_injective injective
    rw [← List.getElem?_map, ← List.getElem?_map, each, each, List.map_set]
    exact stored.expected_set _ _ other notNext
  telescopes := fun samples advancing => by
    rw [each]
    exact Bank.sum_expected advancing

/-! ### xstat -/

namespace Xstat.PerfCounterContext

variable {ε : Type} {n : Nat}

/-- The totals of calls in a row. -/
def totals (ρ : Rounding) : PerfCounterContext ε → List (ε → PerfEventValue) → List (BitVec 64)
  | _, [] => []
  | ctx, read :: rest => (ctx.perfRestart ρ read).2 :: totals ρ (ctx.perfRestart ρ read).1 rest

/-- The bank of a context with `n` entries. -/
def stored (n : Nat) (ctx : PerfCounterContext ε) : Bank n :=
  fun i => ctx.events[i.val]?.bind fun entry => entry.event.map fun _ => entry.value

/-- What a call reads of the event in each entry. -/
def view (n : Nat) (ctx : PerfCounterContext ε) (read : ε → PerfEventValue) : Fin n → PerfEventValue :=
  fun i => ((ctx.events[i.val]?.bind fun entry => entry.event).map read).getD .zero

/-- What an entry adds. -/
def entryTotal (read : ε → PerfEventValue) (entry : PerfCounterPerCpu ε) : Nat :=
  contribution (entry.event.map fun _ => entry.value) ((entry.event.map read).getD .zero)

theorem restartEntry_snd (read : ε → PerfEventValue) (entry : PerfCounterPerCpu ε) :
    (restartEntry .exact read entry).2 = BitVec.ofNat 64 (entryTotal read entry) := by
  unfold restartEntry entryTotal
  cases entry.event with
  | none => rfl
  | some event => exact scaled_eq_contribution ..

theorem sum_entryTotal (ctx : PerfCounterContext ε) (read : ε → PerfEventValue)
    (length : ctx.events.length = n) :
    (ctx.events.map (entryTotal read)).sum = (ctx.stored n).total (ctx.view n read) := by
  subst length
  rw [Bank.total, ← Fin.sum_univ_fun_getElem]
  refine Finset.sum_congr rfl fun i _ => ?_
  simp only [stored, view, entryTotal, List.getElem?_eq_getElem i.isLt, Option.bind_some]

/-- **A call of xstat's `perf_restart`.** -/
theorem toNat_perfRestart (fits : n * perfOverflowThreshold < 2 ^ 64) (ctx : PerfCounterContext ε)
    (read : ε → PerfEventValue) (length : ctx.events.length = n) :
    (ctx.perfRestart .exact read).2.toNat = (ctx.stored n).total (ctx.view n read) := by
  have sum := sum_entryTotal ctx read length
  have small := (Bank.total_le (ctx.stored n) (ctx.view n read)).trans_lt fits
  have words : ctx.events.map (fun entry => (restartEntry .exact read entry).2) =
      ctx.events.map fun entry => BitVec.ofNat 64 (entryTotal read entry) :=
    List.map_congr_left fun entry _ => restartEntry_snd read entry
  rw [perfRestart, words, toNat_sum_ofNat _ _ (sum ▸ small), sum]

theorem view_perfRestart (ρ : Rounding) (ctx : PerfCounterContext ε) (read : ε → PerfEventValue) :
    (ctx.perfRestart ρ read).1.view n = ctx.view n := by
  funext read' i
  simp only [view, perfRestart, List.getElem?_map]
  cases ctx.events[i.val]? with
  | none => rfl
  | some entry => simp

theorem stored_perfRestart (ρ : Rounding) (ctx : PerfCounterContext ε) (read : ε → PerfEventValue) :
    (ctx.perfRestart ρ read).1.stored n = (ctx.stored n).after (ctx.view n read) := by
  funext i
  simp only [stored, view, Bank.after, perfRestart, List.getElem?_map]
  cases ctx.events[i.val]? with
  | none => rfl
  | some entry =>
    cases held : entry.event with
    | none => simp [held]
    | some event => simp [restartEntry, held]

theorem length_perfRestart (ρ : Rounding) (ctx : PerfCounterContext ε) (read : ε → PerfEventValue) :
    (ctx.perfRestart ρ read).1.events.length = ctx.events.length := List.length_map _

theorem toNat_totals (fits : n * perfOverflowThreshold < 2 ^ 64) (ctx : PerfCounterContext ε)
    (length : ctx.events.length = n) (samples : List (ε → PerfEventValue)) :
    (ctx.totals .exact samples).map BitVec.toNat =
      (ctx.stored n).expected (samples.map (ctx.view n)) := by
  induction samples generalizing ctx with
  | nil => rfl
  | cons read rest ih =>
    have later := ih (ctx.perfRestart .exact read).1 ((length_perfRestart ..).trans length)
    rw [stored_perfRestart, view_perfRestart] at later
    rw [totals, List.map_cons, List.map_cons, Bank.expected_cons, later,
      toNat_perfRestart fits ctx read length]

end Xstat.PerfCounterContext

/-! ### haswellstat, sbstat and micstat -/

namespace Haswellstat.PerfEvents

variable {n : Nat}

/-- The totals of calls in a row, for one counter. -/
def totals (ρ : Rounding) (n counter : Nat) :
    PerfEvents → List (Nat → PerfEventValue) → List (BitVec 64)
  | _, [] => []
  | s, read :: rest =>
    (s.perfRestart ρ n read counter).1 :: totals ρ n counter (s.perfRestart ρ n read counter).2 rest

/-- The bank of a counter. -/
def stored (n counter : Nat) (s : PerfEvents) : Bank n :=
  fun cpu => (s.events counter cpu).map fun _ => s.values counter cpu

theorem stored_perfRestart (ρ : Rounding) (s : PerfEvents) (counter : Nat) (read : Nat → PerfEventValue) :
    (s.perfRestart ρ n read counter).2.stored n counter =
      (s.stored n counter).after fun cpu => read cpu := by
  rw [perfRestart_eq]
  funext cpu
  simp only [stored, Bank.after, Function.update_self]
  cases held : s.events counter cpu with
  | none => rfl
  | some event => simp

/-- **A call of haswellstat's `perf_restart`.** -/
theorem toNat_perfRestart (fits : n * perfOverflowThreshold < 2 ^ 64) (s : PerfEvents) (counter : Nat)
    (read : Nat → PerfEventValue) :
    (s.perfRestart .exact n read counter).1.toNat =
      (s.stored n counter).total fun cpu => read cpu := by
  let added := fun cpu : Nat =>
    contribution ((s.events counter cpu).map fun _ => s.values counter cpu) (read cpu)
  have sum : ((List.range n).map added).sum = (s.stored n counter).total fun cpu => read cpu := by
    have range : ((List.range n).map added).sum = ∑ cpu ∈ Finset.range n, added cpu := rfl
    rw [range, Finset.sum_range]
    rfl
  have words : (List.range n).map (fun cpu => if (s.events counter cpu).isSome then
        (s.values counter cpu).scaled .exact (read cpu) else 0) =
      (List.range n).map fun cpu => BitVec.ofNat 64 (added cpu) := by
    refine List.map_congr_left fun cpu _ => ?_
    cases held : s.events counter cpu with
    | none => simp [added, held, contribution]
    | some event => simp [added, held, scaled_eq_contribution]
  have small := (Bank.total_le (s.stored n counter) fun cpu => read cpu).trans_lt fits
  rw [perfRestart_eq, words, toNat_sum_ofNat _ _ (sum ▸ small), sum]

theorem toNat_totals (fits : n * perfOverflowThreshold < 2 ^ 64) (s : PerfEvents) (counter : Nat)
    (samples : List (Nat → PerfEventValue)) :
    (s.totals .exact n counter samples).map BitVec.toNat =
      (s.stored n counter).expected (samples.map fun read cpu => read cpu) := by
  induction samples generalizing s with
  | nil => rfl
  | cons read rest ih =>
    have later := ih (s.perfRestart .exact n read counter).2
    rw [stored_perfRestart] at later
    rw [totals, List.map_cons, List.map_cons, Bank.expected_cons, later, toNat_perfRestart fits]

end Haswellstat.PerfEvents

/-! ### The code -/

/-- **The totals of `perf_restart` add up**, in xstat and in haswellstat, for any number of CPUs whose
thresholds together fit into 64 bits, of which any may lack an event, and for any readings: no iteration
divides by zero, and the totals of calls in a row are those of a bank. -/
theorem perf_totals_add_up {n : Nat} (fits : n * perfOverflowThreshold < 2 ^ 64) :
    (∀ (ε : Type) (ctx : Xstat.PerfCounterContext ε), ctx.events.length = n →
      Aggregates (ctx.stored n) (ctx.view n) (ctx.totals .exact)) ∧
    (∀ (s : Haswellstat.PerfEvents) (counter : Nat),
      Aggregates (s.stored n counter) (fun read cpu => read cpu) (s.totals .exact n counter)) ∧
    ∀ last ret, scaledChecked .exact last ret = some (scaled .exact last ret) :=
  ⟨fun _ ctx length => aggregates_of_each fun samples => ctx.toNat_totals fits length samples,
    fun s counter => aggregates_of_each fun samples => s.toNat_totals fits counter samples,
    scaledChecked_eq .exact⟩

/-- Two CPUs, of which the second has no event. The first counted five and then four. -/
theorem perf_totals_add_up_two :
    let s : Haswellstat.PerfEvents :=
      { Haswellstat.PerfEvents.start with events := fun _ cpu => if cpu = 0 then some 0 else none }
    let samples : List (Nat → PerfEventValue) := [fun _ => ⟨5, 1, 1⟩, fun _ => ⟨9, 4, 4⟩]
    ((s.totals .exact 2 0 samples).map BitVec.toNat).sum = 9 := by
  intro s samples
  obtain ⟨_, haswellstat, _⟩ := @perf_totals_add_up 2 (by decide)
  have advancing : (s.stored 2 0).Advancing (samples.map fun read cpu => read cpu) := by
    have first : Advances .zero ⟨5, 1, 1⟩ := ⟨by decide, by decide, by decide, by decide⟩
    have second : Advances ⟨5, 1, 1⟩ ⟨9, 4, 4⟩ := ⟨by decide, by decide, by decide, by decide⟩
    intro x member cpu last held
    rcases List.mem_cons.mp member with rfl | later
    · fin_cases cpu
      · cases held
        exact first
      · cases held
    · rw [List.mem_singleton.mp later] at held ⊢
      fin_cases cpu
      · cases held
        exact second
      · cases held
  exact (haswellstat s 0).telescopes samples advancing

end Xstats
