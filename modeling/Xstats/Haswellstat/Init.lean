/-
**Initialising haswellstat, sbstat and micstat** (`micstat_init`).

`micstat_init` initialises the counters, and where one fails goes back over it and all before it. The
label of a failed `class_register` stands behind that loop, so that there nothing is released. The
three modules differ in their tables and in the number of CPUs, which are parameters here. The flag, the
period and the indices of the ring, which it sets without a condition, are left out.

* `initCounters_spec`: how far the loop over the counters comes.
* `unwind_spec`: what the loop back leaves.
* `micstat_init_all_or_nothing_iff`: when a failed initialisation leaves nothing behind.
-/

import Xstats.Haswellstat.PerfEvents

namespace Xstats.Haswellstat

/-- A table of counters in which those that create events also release them, as both macros have it. -/
structure CounterTable where
  counters : List MicstatCounter
  paired : ∀ cnt ∈ counters, cnt.exit.isSome = cnt.init.isSome

/-- The table of haswellstat and sbstat. -/
def statTable : CounterTable := ⟨statCounters, by decide⟩

/-- The table of micstat. -/
def micTable : CounterTable := ⟨micCounters, by decide⟩

/-- What `micstat_init` finds: the number of CPUs, for which counter and CPU
`perf_event_create_kernel_counter` returns an event, and what `class_register` returns. -/
structure InitOutcomes where
  ncpus : Nat
  creates : Nat → Nat → Bool
  classRegister : Int

/-- The loop over the counters from counter `i` on: the error it ends with, where it ended, and the
events. -/
def initCounters (o : InitOutcomes) : List MicstatCounter → Nat → PerfEvents → Int × Nat × PerfEvents
  | [], i, s => (0, i, s)
  | cnt :: rest, i, s =>
    if cnt.init.isSome then
      let (err, s) := s.perfInit o.ncpus (o.creates i) i
      if err ≠ 0 then (err, i, s) else initCounters o rest (i + 1) s
    else initCounters o rest (i + 1) s

/-- `counters[i].exit`, where there is one. -/
def exitCounter (ncpus : Nat) (table : CounterTable) (i : Nat) (s : PerfEvents) : PerfEvents :=
  match table.counters[i]? with
  | some cnt => if cnt.exit.isSome then s.perfExit ncpus i else s
  | none => s

/-- The loop behind `fail_cnt_init`, from counter `i` back to the first. -/
def unwind (ncpus : Nat) (table : CounterTable) : Nat → PerfEvents → PerfEvents
  | 0, s => exitCounter ncpus table 0 s
  | i + 1, s => unwind ncpus table i (exitCounter ncpus table (i + 1) s)

/-- `micstat_init`: what it returns and the events it leaves. -/
def micstatInitEvents (table : CounterTable) (o : InitOutcomes) : Int × PerfEvents :=
  let (err, i, s) := initCounters o table.counters 0 .start
  if err ≠ 0 then (err, unwind o.ncpus table i s)
  else if o.classRegister ≠ 0 then (o.classRegister, s)
  else (0, s)

/-- If the initialisation failed, every event created was released once, and no slot holds one. -/
def AllOrNothing (result : Int × PerfEvents) : Prop :=
  result.1 ≠ 0 → result.2.released.Perm (List.range result.2.nextEvent) ∧
    ∀ counter cpu, result.2.events counter cpu = none

/-- Events are to be created, all are, and then the class cannot be registered. -/
structure InitLeaks (table : CounterTable) (o : InitOutcomes) : Prop where
  fails : o.classRegister ≠ 0
  creates : ∀ i cnt, table.counters[i]? = some cnt → cnt.init.isSome = true →
    ∀ cpu, cpu < o.ncpus → o.creates i cpu = true
  any : (∃ cnt ∈ table.counters, cnt.init.isSome = true) ∧ 0 < o.ncpus

/-! ### The loop over the counters -/

/-- Counter `c` of the table creates events. -/
def CounterTable.Creates (table : CounterTable) (c : Nat) : Prop :=
  ∃ cnt, table.counters[c]? = some cnt ∧ cnt.init.isSome = true

/-- Slots are filled only of counters before `i` that create events. -/
structure Within (table : CounterTable) (ncpus i : Nat) (s : PerfEvents) : Prop where
  inv : EventsInv s
  within : ∀ c k, s.events c k ≠ none → c < i ∧ k < ncpus ∧ table.Creates c

/-- And all of them are. -/
structure Filled (table : CounterTable) (o : InitOutcomes) (i : Nat) (s : PerfEvents) : Prop
    extends Within table o.ncpus i s where
  filled : ∀ c, c < i → table.Creates c → ∀ k, k < o.ncpus →
    o.creates c k = true ∧ s.events c k ≠ none

theorem filled_start (table : CounterTable) (o : InitOutcomes) : Filled table o 0 .start where
  inv := .start
  within := fun _ _ held => absurd rfl held
  filled := fun _ below => absurd below (Nat.not_lt_zero _)

/-- How the loop over the counters ends: past the last of them, or at one of whose events one cannot be
created. -/
def InitEnds (table : CounterTable) (o : InitOutcomes) (result : Int × Nat × PerfEvents) : Prop :=
  (result.1 = 0 ∧ result.2.1 = table.counters.length ∧ Filled table o result.2.1 result.2.2) ∨
    (result.1 = -1 ∧ Within table o.ncpus (result.2.1 + 1) result.2.2 ∧ table.Creates result.2.1 ∧
      ∃ k, k < o.ncpus ∧ o.creates result.2.1 k = false)

/-- An iteration at a counter that creates no event. -/
theorem Filled.skip {table : CounterTable} {o : InitOutcomes} {i : Nat} {s : PerfEvents}
    (before : Filled table o i s) (idle : ¬ table.Creates i) : Filled table o (i + 1) s := by
  refine ⟨⟨before.inv, fun c k held => ?_⟩, fun c upTo creating k inRange => ?_⟩
  · obtain ⟨earlier, rest⟩ := before.within c k held
    exact ⟨Nat.lt_succ_of_lt earlier, rest⟩
  · have apart : c ≠ i := fun same => idle (same ▸ creating)
    exact before.filled c (by omega) creating k inRange

/-- An iteration at a counter that creates events: `perf_init` fills the slots of this counter, or meets
an event that cannot be created. -/
theorem Filled.perfInit {table : CounterTable} {o : InitOutcomes} {i : Nat} {s : PerfEvents}
    (before : Filled table o i s) (creates : table.Creates i) :
    ((s.perfInit o.ncpus (o.creates i) i).1 = 0 ∧
        Filled table o (i + 1) (s.perfInit o.ncpus (o.creates i) i).2) ∨
      ((s.perfInit o.ncpus (o.creates i) i).1 = -1 ∧
        Within table o.ncpus (i + 1) (s.perfInit o.ncpus (o.creates i) i).2 ∧
        ∃ k, k < o.ncpus ∧ o.creates i k = false) := by
  have empty : ∀ cpu, cpu < o.ncpus → s.events i cpu = none := by
    intro cpu _
    by_contra held
    exact Nat.lt_irrefl i (before.within i cpu held).1
  obtain ⟨inv, others, result⟩ := before.inv.perfInit o.ncpus (o.creates i) i empty
  have within : Within table o.ncpus (i + 1) (s.perfInit o.ncpus (o.creates i) i).2 := by
    refine ⟨inv, fun c k held => ?_⟩
    by_cases own : c = i ∧ k < o.ncpus
    · obtain ⟨rfl, inRange⟩ := own
      exact ⟨Nat.lt_succ_self _, inRange, creates⟩
    · rw [others c k own] at held
      obtain ⟨earlier, rest⟩ := before.within c k held
      exact ⟨Nat.lt_succ_of_lt earlier, rest⟩
  rcases result with ⟨done, all, filled⟩ | ⟨failed, stopped⟩
  · refine .inl ⟨done, within, fun c upTo creating k inRange => ?_⟩
    by_cases own : c = i
    · subst own
      exact ⟨all k inRange, filled k inRange⟩
    · rw [others c k fun both => own both.1]
      exact before.filled c (by omega) creating k inRange
  · exact .inr ⟨failed, within, stopped⟩

/-- The loop from counter `i` on. -/
theorem initCounters_spec {table : CounterTable} {o : InitOutcomes} {rest : List MicstatCounter} {i : Nat}
    {s : PerfEvents} (left : table.counters.drop i = rest) (inside : i ≤ table.counters.length)
    (before : Filled table o i s) : InitEnds table o (initCounters o rest i s) := by
  induction rest generalizing i s with
  | nil =>
    have last : i = table.counters.length := by
      have none := congrArg List.length left
      simp only [List.length_drop, List.length_nil] at none
      omega
    exact .inl ⟨rfl, last, before⟩
  | cons cnt rest ih =>
    have below : i < table.counters.length := by
      have some := congrArg List.length left
      simp only [List.length_drop, List.length_cons] at some
      omega
    have here : table.counters[i]? = some cnt := by
      have head := congrArg List.head? left
      rwa [List.head?_drop] at head
    have next : table.counters.drop (i + 1) = rest := by
      rw [← List.drop_drop, left]
      rfl
    rw [initCounters]
    by_cases creates : cnt.init.isSome
    · rw [if_pos creates]
      have creating : table.Creates i := ⟨cnt, here, creates⟩
      set init := s.perfInit o.ncpus (o.creates i) i with initEq
      change InitEnds table o
        (if init.1 ≠ 0 then (init.1, i, init.2) else initCounters o rest (i + 1) init.2)
      rcases before.perfInit creating with ⟨done, filled⟩ | ⟨failed, within, stopped⟩
      · rw [← initEq] at done filled
        rw [if_neg (by simp [done])]
        exact ih next below filled
      · rw [← initEq] at failed within
        rw [if_pos (by simp [failed])]
        exact .inr ⟨failed, within, creating, stopped⟩
    · rw [if_neg creates]
      refine ih next below (before.skip ?_)
      rintro ⟨other, there, creating⟩
      rw [here] at there
      cases there
      exact creates creating

/-! ### The loop back -/

/-- `exit` of counter `i`, of a table whose slots are filled only for counters that create events: it
empties the slots of that counter. -/
theorem EventsInv.exitCounter {table : CounterTable} {ncpus : Nat} {s : PerfEvents} (inv : EventsInv s)
    (owned : ∀ c k, s.events c k ≠ none → k < ncpus ∧ table.Creates c) (i : Nat) :
    EventsInv (exitCounter ncpus table i s) ∧
      (Haswellstat.exitCounter ncpus table i s).nextEvent = s.nextEvent ∧
      ∀ c k, (Haswellstat.exitCounter ncpus table i s).events c k ≠ none →
        c ≠ i ∧ s.events c k ≠ none := by
  have idle : ¬ table.Creates i → ∀ c k, s.events c k ≠ none → c ≠ i ∧ s.events c k ≠ none :=
    fun notHere c k held => ⟨fun same => notHere (same ▸ (owned c k held).2), held⟩
  unfold Haswellstat.exitCounter
  cases there : table.counters[i]? with
  | none =>
    refine ⟨inv, rfl, idle ?_⟩
    rintro ⟨cnt, some, _⟩
    rw [there] at some
    cases some
  | some cnt =>
    have paired := table.paired cnt (List.mem_of_getElem? there)
    by_cases exits : cnt.exit.isSome
    · simp only [exits, if_true]
      obtain ⟨after, next, slots⟩ := inv.perfExit ncpus i
      refine ⟨after, next, fun c k held => ?_⟩
      rw [slots] at held
      split at held
      · exact absurd rfl held
      · exact ⟨fun same => ‹¬(c = i ∧ k < ncpus)› ⟨same, (owned c k held).1⟩, held⟩
    · simp only [exits]
      refine ⟨inv, rfl, idle ?_⟩
      rintro ⟨other, some, creates⟩
      rw [there] at some
      cases some
      rw [paired] at exits
      exact exits creates

/-- One iteration of the loop back. -/
theorem Within.exitCounter {table : CounterTable} {ncpus i : Nat} {s : PerfEvents}
    (before : Within table ncpus (i + 1) s) :
    Within table ncpus i (exitCounter ncpus table i s) ∧
      (Haswellstat.exitCounter ncpus table i s).nextEvent = s.nextEvent := by
  obtain ⟨inv, next, left⟩ := before.inv.exitCounter (fun c k held => (before.within c k held).2) i
  refine ⟨⟨inv, fun c k held => ?_⟩, next⟩
  obtain ⟨apart, held⟩ := left c k held
  obtain ⟨below, rest⟩ := before.within c k held
  exact ⟨by omega, rest⟩

/-- **The loop back** empties all slots. -/
theorem unwind_spec {table : CounterTable} {ncpus i : Nat} {s : PerfEvents}
    (before : Within table ncpus (i + 1) s) :
    Within table ncpus 0 (unwind ncpus table i s) ∧
      (unwind ncpus table i s).nextEvent = s.nextEvent := by
  induction i generalizing s with
  | zero => exact before.exitCounter
  | succ i ih =>
    obtain ⟨after, next⟩ := before.exitCounter
    obtain ⟨all, last⟩ := ih after
    exact ⟨all, last.trans next⟩

theorem Within.empty {table : CounterTable} {ncpus : Nat} {s : PerfEvents} (none : Within table ncpus 0 s)
    (c k : Nat) : s.events c k = .none := by
  by_contra held
  exact Nat.not_lt_zero c (none.within c k held).1

/-- What a successful initialisation leaves. -/
theorem filled_of_initialised {table : CounterTable} {o : InitOutcomes}
    (done : (micstatInitEvents table o).1 = 0) :
    Filled table o table.counters.length (micstatInitEvents table o).2 := by
  have ends := initCounters_spec rfl (Nat.zero_le _) (filled_start table o)
  rw [List.drop_zero] at ends
  unfold micstatInitEvents at done ⊢
  rcases ends with ⟨looped, all, filled⟩ | ⟨failed, _⟩
  · simp only [looped, ne_eq, not_true, if_false] at done ⊢
    rw [all] at filled
    split
    · exact filled
    · exact filled
  · simp only [failed, ne_eq, reduceCtorEq, not_false_eq_true, if_true] at done

theorem within_of_initialised {table : CounterTable} {o : InitOutcomes}
    (done : (micstatInitEvents table o).1 = 0) :
    Within table o.ncpus table.counters.length (micstatInitEvents table o).2 :=
  (filled_of_initialised done).toWithin

/-- **When a failed initialisation leaves nothing behind.** For every table of counters, number of CPUs
and pattern of failures: where `micstat_init` returns an error, every event it created was released
exactly once and no slot refers to one, if and only if it is not the registration of the class that fails
after events were created. -/
theorem micstat_init_all_or_nothing_iff (table : CounterTable) (o : InitOutcomes) :
    AllOrNothing (micstatInitEvents table o) ↔ ¬ InitLeaks table o := by
  have ends := initCounters_spec rfl (Nat.zero_le _) (filled_start table o)
  rw [List.drop_zero] at ends
  unfold micstatInitEvents
  rcases ends with ⟨done, all, filled⟩ | ⟨failed, within, ⟨cnt, there, creates⟩, k, inRange, none⟩
  · simp only [done, ne_eq, not_true, if_false]
    by_cases registered : o.classRegister = 0
    · rw [if_neg (by simpa using registered)]
      exact ⟨fun _ leaks => leaks.fails registered, fun _ failed => absurd rfl failed⟩
    · rw [if_pos registered]
      constructor
      · rintro nothing ⟨_, _, ⟨cnt, member, creates⟩, positive⟩
        obtain ⟨c, below, rfl⟩ := List.getElem_of_mem member
        refine (filled.filled c (all ▸ below) ⟨_, List.getElem?_eq_getElem below, creates⟩ 0 positive).2 ?_
        exact (nothing registered).2 c 0
      · intro sound _
        have empty : ∀ c k, (initCounters o table.counters 0 .start).2.2.events c k = .none := by
          intro c k
          by_contra held
          obtain ⟨_, inRange, cnt, there, creates⟩ := filled.within c k held
          refine sound ⟨registered, fun i other here creating cpu below => ?_,
            ⟨cnt, List.mem_of_getElem? there, creates⟩, by omega⟩
          have before : i < table.counters.length := (List.getElem?_eq_some_iff.mp here).1
          exact (filled.filled i (all ▸ before) ⟨other, here, creating⟩ cpu below).1
        exact ⟨filled.inv.perm empty, empty⟩
  · simp only [failed, ne_eq, reduceCtorEq, not_false_eq_true, if_true]
    constructor
    · intro _ leaks
      have made := leaks.creates _ cnt there creates k inRange
      rw [none] at made
      cases made
    · intro _ _
      obtain ⟨after, next⟩ := unwind_spec within
      exact ⟨after.inv.perm after.empty, after.empty⟩

/-- haswellstat on 32 CPUs, where only the registration of the class fails: its events stay. -/
theorem failed_registration_keeps_events :
    ¬ ∀ (table : CounterTable) (o : InitOutcomes), AllOrNothing (micstatInitEvents table o) := by
  intro always
  have nothing := always statTable ⟨32, fun _ _ => true, -12⟩
  have failed : (micstatInitEvents statTable ⟨32, fun _ _ => true, -12⟩).1 ≠ 0 := by decide +kernel
  have held : (micstatInitEvents statTable ⟨32, fun _ _ => true, -12⟩).2.events 3 0 = some 0 := by
    decide +kernel
  rw [(nothing failed).2 3 0] at held
  cases held

end Xstats.Haswellstat
