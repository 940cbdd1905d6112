/-
**The perf events of haswellstat, sbstat and micstat** (`perf_init`, `perf_exit`).

A counter that counts hardware events has a slot for each CPU, for the event and for what was read of
it. `perf_init` clears the slots and then fills them, up to the first event that cannot be created;
`perf_exit` releases what the slots hold. `EventsInv` follows every event from its creation to its
release.

* `EventsInv.perfInit`, `EventsInv.perfExit`: both keep the invariant.
* `EventsInv.perm`: with no event left in a slot, those released are those created, each once.
-/

import Xstats.Haswellstat.Counters
import Xstats.Perf
import Mathlib.Data.List.Nodup
import Mathlib.Logic.Function.Basic

namespace Xstats.Haswellstat

/-- The slots of each counter, one for each CPU, and what was asked of the kernel: how many events it
created, each with a number of its own, and which it released, oldest first. -/
structure PerfEvents where
  events : Nat → Nat → Option Nat
  values : Nat → Nat → PerfEventValue
  nextEvent : Nat
  released : List Nat

namespace PerfEvents

/-- The module's static memory before `micstat_init`. -/
def start : PerfEvents :=
  { events := fun _ _ => none, values := fun _ _ => .zero, nextEvent := 0, released := [] }

/-- `events[cpu]` of a counter set. -/
def setEvent (s : PerfEvents) (counter cpu : Nat) (event : Option Nat) : PerfEvents :=
  { s with events := Function.update s.events counter (Function.update (s.events counter) cpu event) }

/-- The first loop of `perf_init`. -/
def clear (ncpus : Nat) (counter : Nat) (s : PerfEvents) : PerfEvents :=
  { s with
    events := Function.update s.events counter fun cpu =>
      if cpu < ncpus then none else s.events counter cpu
    values := Function.update s.values counter fun cpu =>
      if cpu < ncpus then .zero else s.values counter cpu }

/-- The second loop of `perf_init`, over the CPUs that are left. `creates` says for which of them
`perf_event_create_kernel_counter` returns an event. -/
def create (creates : Nat → Bool) (counter : Nat) : List Nat → PerfEvents → Int × PerfEvents
  | [], s => (0, s)
  | cpu :: rest, s =>
    if creates cpu then
      create creates counter rest
        { s.setEvent counter cpu (some s.nextEvent) with nextEvent := s.nextEvent + 1 }
    else (-1, s)

/-- `perf_init`. -/
def perfInit (ncpus : Nat) (creates : Nat → Bool) (counter : Nat) (s : PerfEvents) : Int × PerfEvents :=
  create creates counter (List.range ncpus) (s.clear ncpus counter)

/-- An iteration of `perf_exit`. -/
def release (counter : Nat) (s : PerfEvents) (cpu : Nat) : PerfEvents :=
  match s.events counter cpu with
  | some event => { s.setEvent counter cpu none with released := s.released ++ [event] }
  | none => s

/-- `perf_exit`. -/
def perfExit (ncpus : Nat) (counter : Nat) (s : PerfEvents) : PerfEvents :=
  (List.range ncpus).foldl (release counter) s

theorem events_setEvent (s : PerfEvents) (counter cpu : Nat) (event : Option Nat) (c k : Nat) :
    (s.setEvent counter cpu event).events c k =
      if c = counter ∧ k = cpu then event else s.events c k := by
  by_cases own : c = counter
  · subst own
    by_cases here : k = cpu
    · subst here
      simp [setEvent]
    · simp [setEvent, here]
  · simp [setEvent, own]

/-! ### From creation to release -/

end PerfEvents

/-- Every event created is in one slot or was released, never both, and released once. -/
structure EventsInv (s : PerfEvents) : Prop where
  bounded : ∀ c k event, s.events c k = some event → event < s.nextEvent ∧ event ∉ s.released
  distinct : ∀ c k c' k' event, s.events c k = some event → s.events c' k' = some event →
    c = c' ∧ k = k'
  released : s.released.Nodup ∧ ∀ event ∈ s.released, event < s.nextEvent
  accounted : ∀ event, event < s.nextEvent → event ∈ s.released ∨ ∃ c k, s.events c k = some event

namespace EventsInv

open PerfEvents

variable {s : PerfEvents}

theorem start : EventsInv PerfEvents.start :=
  ⟨fun _ _ _ held => (by cases held), fun _ _ _ _ _ held => (by cases held),
    ⟨.nil, fun _ member => (by cases member)⟩, fun _ below => absurd below (Nat.not_lt_zero _)⟩

/-- An event created into an empty slot. -/
theorem created (inv : EventsInv s) {counter cpu : Nat} (empty : s.events counter cpu = none) :
    EventsInv { s.setEvent counter cpu (some s.nextEvent) with nextEvent := s.nextEvent + 1 } := by
  have new : ∀ c k event, (s.setEvent counter cpu (some s.nextEvent)).events c k = some event →
      (c = counter ∧ k = cpu ∧ event = s.nextEvent) ∨ s.events c k = some event := by
    intro c k event held
    rw [events_setEvent] at held
    split at held
    · cases held
      exact .inl ⟨(‹_› : _ ∧ _).1, (‹_› : _ ∧ _).2, rfl⟩
    · exact .inr held
  constructor
  case bounded =>
    intro c k event held
    show event < s.nextEvent + 1 ∧ event ∉ s.released
    rcases new c k event held with ⟨_, _, rfl⟩ | old
    · exact ⟨Nat.lt_succ_self _, fun member => Nat.lt_irrefl _ (inv.released.2 _ member)⟩
    · have before := inv.bounded c k event old
      exact ⟨Nat.lt_succ_of_lt before.1, before.2⟩
  case distinct =>
    intro c k c' k' event held held'
    rcases new c k event held with ⟨rfl, rfl, rfl⟩ | old
    · rcases new c' k' _ held' with ⟨rfl, rfl, _⟩ | old'
      · exact ⟨rfl, rfl⟩
      · exact absurd (inv.bounded c' k' _ old').1 (Nat.lt_irrefl _)
    · rcases new c' k' event held' with ⟨_, _, rfl⟩ | old'
      · exact absurd (inv.bounded c k _ old).1 (Nat.lt_irrefl _)
      · exact inv.distinct c k c' k' event old old'
  case released =>
    exact ⟨inv.released.1, fun event member => Nat.lt_succ_of_lt (inv.released.2 event member)⟩
  case accounted =>
    intro event below
    show event ∈ s.released ∨ ∃ c k, (s.setEvent counter cpu (some s.nextEvent)).events c k = some event
    rcases Nat.lt_succ_iff_lt_or_eq.mp below with earlier | rfl
    · rcases inv.accounted event earlier with gone | ⟨c, k, held⟩
      · exact .inl gone
      · refine .inr ⟨c, k, ?_⟩
        have apart : ¬(c = counter ∧ k = cpu) := by
          rintro ⟨rfl, rfl⟩
          rw [empty] at held
          cases held
        rw [events_setEvent, if_neg apart, held]
    · exact .inr ⟨counter, cpu, by rw [events_setEvent, if_pos ⟨rfl, rfl⟩]⟩

/-- A slot's event released and the slot cleared. -/
theorem release (inv : EventsInv s) (counter cpu : Nat) :
    EventsInv (PerfEvents.release counter s cpu) := by
  unfold PerfEvents.release
  cases held : s.events counter cpu with
  | none => exact inv
  | some event =>
    obtain ⟨below, fresh⟩ := inv.bounded counter cpu event held
    have left : ∀ c k other, (s.setEvent counter cpu none).events c k = some other →
        s.events c k = some other ∧ other ≠ event := by
      intro c k other there
      rw [events_setEvent] at there
      split at there
      · cases there
      · refine ⟨there, ?_⟩
        rintro rfl
        exact absurd (inv.distinct c k counter cpu _ there held) ‹_›
    constructor
    case bounded =>
      intro c k other there
      obtain ⟨old, apart⟩ := left c k other there
      have before := inv.bounded c k other old
      exact ⟨before.1, by simp [before.2, apart]⟩
    case distinct =>
      intro c k c' k' other there there'
      exact inv.distinct c k c' k' other (left c k other there).1 (left c' k' other there').1
    case released =>
      refine ⟨List.nodup_append'.mpr ⟨inv.released.1, List.nodup_singleton _, by simpa⟩, ?_⟩
      intro other member
      rcases List.mem_append.mp member with old | new
      · exact inv.released.2 other old
      · rw [List.mem_singleton.mp new]
        exact below
    case accounted =>
      intro other created
      show other ∈ s.released ++ [event] ∨ ∃ c k, (s.setEvent counter cpu none).events c k = some other
      by_cases same : other = event
      · exact .inl (by simp [same])
      · rcases inv.accounted other created with gone | ⟨c, k, there⟩
        · exact .inl (List.mem_append_left _ gone)
        · refine .inr ⟨c, k, ?_⟩
          have apart : ¬(c = counter ∧ k = cpu) := by
            rintro ⟨rfl, rfl⟩
            rw [held] at there
            exact same (Option.some.inj there).symm
          rw [events_setEvent, if_neg apart, there]

/-- **With no event left in a slot, the events released are those created, each once.** -/
theorem perm (inv : EventsInv s) (empty : ∀ c k, s.events c k = none) :
    s.released.Perm (List.range s.nextEvent) := by
  refine (List.perm_ext_iff_of_nodup inv.released.1 List.nodup_range).mpr fun event => ?_
  rw [List.mem_range]
  refine ⟨inv.released.2 event, fun created => ?_⟩
  refine (inv.accounted event created).resolve_right ?_
  rintro ⟨c, k, held⟩
  rw [empty] at held
  cases held

/-! ### The loops -/

/-- What the loop of `perf_exit` leaves in the slots. -/
theorem perfExit (inv : EventsInv s) (ncpus counter : Nat) :
    EventsInv (s.perfExit ncpus counter) ∧
      (s.perfExit ncpus counter).nextEvent = s.nextEvent ∧
      ∀ c k, (s.perfExit ncpus counter).events c k =
        if c = counter ∧ k < ncpus then none else s.events c k := by
  have step : ∀ (s : PerfEvents) cpu c k, (PerfEvents.release counter s cpu).events c k =
      if c = counter ∧ k = cpu then none else s.events c k := by
    intro s cpu c k
    cases held : s.events counter cpu with
    | none =>
      simp only [PerfEvents.release, held]
      by_cases here : c = counter ∧ k = cpu
      · rw [if_pos here, here.1, here.2, held]
      · rw [if_neg here]
    | some event =>
      simp only [PerfEvents.release, held]
      exact events_setEvent ..
  have next : ∀ (s : PerfEvents) cpu, (PerfEvents.release counter s cpu).nextEvent = s.nextEvent := by
    intro s cpu
    unfold PerfEvents.release
    split <;> rfl
  unfold PerfEvents.perfExit
  induction ncpus with
  | zero => exact ⟨inv, rfl, fun c k => by simp⟩
  | succ n ih =>
    obtain ⟨before, nextEvent, slots⟩ := ih
    rw [List.range_succ, List.foldl_append]
    refine ⟨before.release counter n, (next _ _).trans nextEvent, fun c k => ?_⟩
    show (PerfEvents.release counter _ n).events c k = _
    rw [step, slots]
    by_cases own : c = counter
    · by_cases last : k = n
      · simp [own, last]
      · have same : k < n + 1 ↔ k < n := by omega
        simp [own, last, same]
    · simp [own]

/-- What the second loop of `perf_init` leaves in the slots, where those it is to fill are empty. -/
theorem create (creates : Nat → Bool) (counter : Nat) {cpus : List Nat} (inv : EventsInv s)
    (distinct : cpus.Nodup) (empty : ∀ cpu ∈ cpus, s.events counter cpu = none) :
    let after := PerfEvents.create creates counter cpus s
    EventsInv after.2 ∧
      (∀ c k, ¬(c = counter ∧ k ∈ cpus) → after.2.events c k = s.events c k) ∧
      ((after.1 = 0 ∧ (∀ cpu ∈ cpus, creates cpu = true) ∧
          ∀ cpu ∈ cpus, after.2.events counter cpu ≠ none) ∨
        (after.1 = -1 ∧ ∃ cpu ∈ cpus, creates cpu = false)) := by
  induction cpus generalizing s with
  | nil => exact ⟨inv, fun _ _ _ => rfl, .inl ⟨rfl, by simp, by simp⟩⟩
  | cons cpu rest ih =>
    obtain ⟨fresh, distinct⟩ := List.nodup_cons.mp distinct
    rw [PerfEvents.create]
    cases made : creates cpu with
    | false => exact ⟨inv, fun _ _ _ => rfl, .inr ⟨rfl, cpu, List.mem_cons_self, made⟩⟩
    | true =>
      have slot := events_setEvent s counter cpu (some s.nextEvent)
      obtain ⟨after, others, result⟩ := ih (inv.created (empty cpu List.mem_cons_self)) distinct
        fun k member => by
          show (s.setEvent counter cpu _).events counter k = none
          have apart : k ≠ cpu := fun same => fresh (same ▸ member)
          rw [slot, if_neg fun both => apart both.2]
          exact empty k (List.mem_cons_of_mem _ member)
      refine ⟨after, fun c k outside => ?_, ?_⟩
      · have notRest : ¬(c = counter ∧ k ∈ rest) := fun both =>
          outside ⟨both.1, List.mem_cons_of_mem _ both.2⟩
        have notHere : ¬(c = counter ∧ k = cpu) := fun both =>
          outside ⟨both.1, both.2 ▸ List.mem_cons_self⟩
        exact (others c k notRest).trans ((slot c k).trans (if_neg notHere))
      · rcases result with ⟨done, all, filled⟩ | ⟨failed, k, member, none⟩
        · refine .inl ⟨done, by simpa [made] using all, fun k member => ?_⟩
          rcases List.mem_cons.mp member with rfl | later
          · have kept := others counter k fun both => fresh both.2
            rw [if_pos rfl, kept]
            show (s.setEvent counter k _).events counter k ≠ none
            rw [slot, if_pos ⟨rfl, rfl⟩]
            simp
          · exact filled k later
        · exact .inr ⟨failed, k, List.mem_cons_of_mem _ member, none⟩

/-- **`perf_init`** on a counter whose slots are empty: it fails exactly if an event cannot be created,
and otherwise fills all slots. -/
theorem perfInit (inv : EventsInv s) (ncpus : Nat) (creates : Nat → Bool) (counter : Nat)
    (empty : ∀ cpu, cpu < ncpus → s.events counter cpu = none) :
    let after := s.perfInit ncpus creates counter
    EventsInv after.2 ∧
      (∀ c k, ¬(c = counter ∧ k < ncpus) → after.2.events c k = s.events c k) ∧
      ((after.1 = 0 ∧ (∀ cpu, cpu < ncpus → creates cpu = true) ∧
          ∀ cpu, cpu < ncpus → after.2.events counter cpu ≠ none) ∨
        (after.1 = -1 ∧ ∃ cpu, cpu < ncpus ∧ creates cpu = false)) := by
  have same : (s.clear ncpus counter).events = s.events := by
    refine Function.update_eq_self_iff.mpr (funext fun cpu => ?_)
    split
    · exact (empty cpu ‹_›).symm
    · rfl
  have cleared : EventsInv (s.clear ncpus counter) :=
    ⟨same ▸ inv.bounded, same ▸ inv.distinct, inv.released, same ▸ inv.accounted⟩
  have loop := cleared.create creates counter (List.nodup_range : (List.range ncpus).Nodup)
    fun cpu member => same ▸ empty cpu (List.mem_range.mp member)
  simp only [List.mem_range] at loop
  obtain ⟨after, others, result⟩ := loop
  exact ⟨after, fun c k outside => (others c k outside).trans (congrFun (congrFun same c) k), result⟩

end EventsInv

end Xstats.Haswellstat
