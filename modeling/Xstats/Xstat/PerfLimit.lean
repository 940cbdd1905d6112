/-
**The log of the frequency limits** (`perflmt_restart`).

The upper half of the low word of `MSR_CORE_PERF_LIMIT_REASONS` is a log. The hardware sets a bit of it at
any moment, and the bit stays set until software writes a zero there; to write a one leaves it as it is.
`perflmt_restart` reads the register and then writes what it read with zeros for all of the log, so also
for a bit that was set in between.

* `logged_step`, `not_logged_of_write`: what keeps a bit of the log, and what clears it.
* `none_lost_iff`: in every run no event is lost exactly if none falls between the two steps of a call.
* `event_lost`: an event that falls there is in no sample.
-/

import Xstats.Lib.Transition
import Xstats.Xstat.Counters

namespace Xstats.Xstat.PerfLimit

open Transition

/-! ### The register and a call -/

/-- `MSR_CORE_PERF_LIMIT_REASONS_RST_MASK`. -/
def rstMask : Word := 0xffffffff0000ffff

/-- The register, the variable `perf_limit` of a call that has read and not yet written, and what the
calls returned. -/
structure State where
  msr : Word
  perfLimit : Option Word
  samples : List Word
  deriving DecidableEq, Repr

inductive Action
  /-- The hardware sets a bit of the log. -/
  | throttle (reason : Fin 16)
  /-- The hardware changes the reasons that hold now. -/
  | status (reasons : BitVec 16)
  /-- A call of `perflmt_restart` reads. -/
  | rdmsrl
  /-- It writes, and returns what it read. -/
  | wrmsrl
  deriving DecidableEq, Repr

/-- The bit of the register that logs a reason. -/
def logBit (reason : Fin 16) : Nat := 16 + reason

/-- Whether a word has a reason in its log. -/
def Logged (word : Word) (reason : Fin 16) : Prop := word.getLsbD (logBit reason) = true

instance (word : Word) (reason : Fin 16) : Decidable (Logged word reason) :=
  inferInstanceAs (Decidable (_ = _))

/-- What a write leaves in the register: of the log the bits that were written as ones, and all else. -/
def afterWrite (msr written : Word) : Word := msr &&& (written ||| rstMask)

def step (s : State) : Action → Option State
  | .throttle reason => some { s with msr := s.msr ||| BitVec.twoPow 64 (logBit reason) }
  | .status reasons => some { s with msr := (s.msr &&& ~~~0xffff) ||| reasons.setWidth 64 }
  | .rdmsrl =>
    match s.perfLimit with
    | none => some { s with perfLimit := some s.msr }
    | some _ => none
  | .wrmsrl => do
    let perfLimit ← s.perfLimit
    return { msr := afterWrite s.msr (perfLimit &&& rstMask), perfLimit := none
             samples := s.samples ++ [perfLimit] }

/-- The state before the first call, whatever the register holds. -/
def State.initial (msr : Word) : State := ⟨msr, none, []⟩

/-! ### What is to hold -/

/-- The steps of a run, with the states before them. -/
abbrev Steps := List (State × Action)

/-- The words that the calls of a run read. -/
def wordsRead (trace : Steps) : List Word :=
  trace.filterMap fun x => if x.2 = .rdmsrl then some x.1.msr else none

/-- **No event is lost**: the first read after it has its bit, and no write clears it before. -/
structure NoneLost (trace : Steps) : Prop where
  reported : ∀ (earlier : Steps) (s : State) (reason : Fin 16) (mid : Steps) (s' : State) (later : Steps),
    trace = earlier ++ (s, .throttle reason) :: (mid ++ (s', .rdmsrl) :: later) →
    (∀ x ∈ mid, x.2 ≠ .rdmsrl) → Logged s'.msr reason
  kept : ∀ (earlier : Steps) (s : State) (reason : Fin 16) (mid : Steps) (s' : State) (later : Steps),
    trace = earlier ++ (s, .throttle reason) :: (mid ++ (s', .wrmsrl) :: later) →
    (∀ x ∈ mid, x.2 ≠ .rdmsrl) → ∀ s'', step s' .wrmsrl = some s'' → Logged s''.msr reason

/-- No event falls between the read and the write of one call. -/
def NoEventInCall (trace : Steps) : Prop :=
  ∀ (earlier : Steps) (s : State) (mid : Steps) (s' : State) (later : Steps),
    trace = earlier ++ (s, .rdmsrl) :: (mid ++ (s', .wrmsrl) :: later) →
    (∀ x ∈ mid, x.2 ≠ .rdmsrl) → ∀ x ∈ mid, ∀ reason, x.2 ≠ .throttle reason

/-! ### Steps -/

theorem logBit_range (reason : Fin 16) : 16 ≤ logBit reason ∧ logBit reason < 32 := by
  unfold logBit
  omega

/-- The reset mask has no bit of the log. -/
theorem not_logged_rstMask (reason : Fin 16) : ¬ Logged rstMask reason := by
  revert reason
  decide

/-- **A write clears the log.** -/
theorem not_logged_of_write {s s' : State} (taken : step s .wrmsrl = some s') (reason : Fin 16) :
    ¬ Logged s'.msr reason := by
  obtain ⟨perfLimit, _, same⟩ := Option.bind_eq_some_iff.mp taken
  cases same
  have mask := not_logged_rstMask reason
  simp only [Logged, Bool.not_eq_true, afterWrite, BitVec.getLsbD_and, BitVec.getLsbD_or] at mask ⊢
  simp [mask]

/-- An event sets its bit. -/
theorem logged_of_throttle {s s' : State} {reason : Fin 16}
    (taken : step s (.throttle reason) = some s') : Logged s'.msr reason := by
  cases taken
  have range := logBit_range reason
  simp [Logged, show logBit reason < 64 by omega]

/-- **A bit of the log stays** unless there is a write. -/
theorem logged_step {s s' : State} {a : Action} {reason : Fin 16} (logged : Logged s.msr reason)
    (noWrite : a ≠ .wrmsrl) (taken : step s a = some s') : Logged s'.msr reason := by
  cases a with
  | throttle other =>
    cases taken
    simp only [Logged, BitVec.getLsbD_or] at logged ⊢
    simp [logged]
  | status reasons =>
    cases taken
    have range := logBit_range reason
    have high : ∀ reason, (0xffff : Word).getLsbD (logBit reason) = false := by decide
    simp only [Logged, BitVec.getLsbD_or, BitVec.getLsbD_and, BitVec.getLsbD_not, high] at logged ⊢
    simp [logged, show logBit reason < 64 by omega]
  | rdmsrl =>
    simp only [step] at taken
    split at taken
    · cases taken
      exact logged
    · cases taken
  | wrmsrl => exact absurd rfl noWrite

/-- Without a read no call begins. -/
theorem idle_step {s s' : State} {a : Action} (idle : s.perfLimit = none) (noRead : a ≠ .rdmsrl)
    (taken : step s a = some s') : s'.perfLimit = none := by
  cases a with
  | throttle | status =>
    cases taken
    exact idle
  | rdmsrl => exact absurd rfl noRead
  | wrmsrl =>
    obtain ⟨_, _, same⟩ := Option.bind_eq_some_iff.mp taken
    cases same
    rfl

/-! ### Runs -/

section Runs

variable {msr : Word} {trace : Steps} {s : State}

/-- A run between two of its steps. -/
theorem run_between {earlier mid later : Steps} {x y : State × Action}
    (run : Run step (.initial msr) (earlier ++ x :: (mid ++ y :: later)) s) :
    ∃ s', step x.1 x.2 = some s' ∧ Run step s' mid y.1 := by
  obtain ⟨s', taken, rest⟩ := run.after
  exact ⟨s', taken, rest.before⟩

/-- **A bit of the log stays** over steps of which none is a write. -/
theorem log_of_no_write {s' : State} {reason : Fin 16} (logged : Logged s.msr reason)
    (run : Run step s trace s') (noWrite : ∀ x ∈ trace, x.2 ≠ .wrmsrl) : Logged s'.msr reason :=
  run.invariant (P := fun s => Logged s.msr reason) (fun _ a => a ≠ .wrmsrl) logged
    (fun _ _ _ before allowed taken => logged_step before allowed taken) noWrite

/-- A write belongs to a call that has read: without a read in between, the call had begun before. -/
theorem call_open {s' s'' : State} (run : Run step s trace s')
    (noRead : ∀ x ∈ trace, x.2 ≠ .rdmsrl) (write : step s' .wrmsrl = some s'') :
    s.perfLimit ≠ none := by
  intro idle
  have still : s'.perfLimit = none :=
    run.invariant (P := fun s => s.perfLimit = none) (fun _ a => a ≠ .rdmsrl) idle
      (fun _ _ _ before allowed taken => idle_step before allowed taken) noRead
  obtain ⟨_, begun, _⟩ := Option.bind_eq_some_iff.mp write
  rw [still] at begun
  cases begun

/-- A call that has begun did so with a read. -/
theorem read_of_open (run : Run step (.initial msr) trace s) (begun : s.perfLimit ≠ none) :
    ∃ earlier s₀ mid, trace = earlier ++ (s₀, .rdmsrl) :: mid ∧ ∀ x ∈ mid, x.2 ≠ .rdmsrl := by
  induction run with
  | nil => exact absurd rfl begun
  | @snoc trace s s' a _ taken ih =>
    by_cases read : a = .rdmsrl
    · subst read
      exact ⟨trace, s, [], rfl, fun x member => by cases member⟩
    · have before : s.perfLimit ≠ none := fun idle => begun (idle_step idle read taken)
      obtain ⟨earlier, s₀, mid, rfl, noRead⟩ := ih before
      refine ⟨earlier, s₀, mid ++ [(s, a)], by simp, fun x member => ?_⟩
      rcases List.mem_append.mp member with old | new
      · exact noRead x old
      · rw [List.mem_singleton.mp new]
        exact read

/-- Where no event falls into a call, no write follows an event but after a read. -/
theorem no_write_of_noEventInCall (run : Run step (.initial msr) trace s) (apart : NoEventInCall trace)
    {earlier mid later : Steps} {s₁ s₂ : State} {reason : Fin 16}
    (split : trace = earlier ++ (s₁, .throttle reason) :: (mid ++ (s₂, .wrmsrl) :: later)) :
    ¬ ∀ x ∈ mid, x.2 ≠ .rdmsrl := by
  intro noRead
  subst split
  obtain ⟨s', taken, between⟩ := run_between run
  obtain ⟨_, write⟩ := run.taken (s₂, .wrmsrl) (by simp)
  have open' := call_open between noRead write
  have begun : s₁.perfLimit ≠ none := fun idle => open' (idle_step idle (by simp) taken)
  obtain ⟨first, s₀, rest, rfl, none⟩ := read_of_open run.before begun
  -- The call that writes is the one that read before the event.
  have inside := apart first s₀ (rest ++ (s₁, .throttle reason) :: mid) s₂ later (by simp) (by
    intro x member
    rcases List.mem_append.mp member with old | new
    · exact none x old
    · rcases List.mem_cons.mp new with rfl | later
      · simp
      · exact noRead x later)
  exact inside (s₁, .throttle reason) (by simp) reason rfl

/-- The calls return the words they read. -/
theorem wordsRead_eq (run : Run step (.initial msr) trace s) :
    wordsRead trace = s.samples ++ s.perfLimit.toList := by
  induction run with
  | nil => rfl
  | @snoc trace s s' a _ taken ih =>
    rw [wordsRead, List.filterMap_append, ← wordsRead, ih]
    cases a with
    | throttle | status =>
      cases taken
      exact List.append_nil _
    | rdmsrl =>
      simp only [step] at taken
      split at taken
      · rename_i idle
        cases taken
        simp [idle]
      · cases taken
    | wrmsrl =>
      obtain ⟨perfLimit, begun, same⟩ := Option.bind_eq_some_iff.mp taken
      cases same
      simp [begun]

/-- **No event is lost if and only if none falls into a call.** In every run, from whatever the register
held at first, and the calls have returned the words they read, but for one that has not ended. -/
theorem none_lost_iff (run : Run step (.initial msr) trace s) :
    wordsRead trace = s.samples ++ s.perfLimit.toList ∧ (NoneLost trace ↔ NoEventInCall trace) := by
  refine ⟨?_, fun lost => ?_, fun apart => ⟨?_, ?_⟩⟩
  · exact wordsRead_eq run
  · intro earlier s₁ mid s₂ later split noRead x member reason event
    obtain ⟨first, second, rfl⟩ := List.append_of_mem member
    obtain ⟨s₀, a⟩ := x
    dsimp only at event
    subst event
    have rest : ∀ y ∈ second, y.2 ≠ .rdmsrl := fun y inside => noRead y (by simp [inside])
    obtain ⟨_, write⟩ := run.taken (s₂, .wrmsrl) (by simp [split])
    have logged := lost.kept (earlier ++ (s₁, .rdmsrl) :: first) s₀ reason second s₂ later
      (by simp [split]) rest _ write
    exact not_logged_of_write write reason logged
  · intro earlier s₁ reason mid s₂ later split noRead
    subst split
    obtain ⟨s', taken, between⟩ := run_between run
    refine log_of_no_write (logged_of_throttle taken) between fun x member write => ?_
    obtain ⟨first, second, rfl⟩ := List.append_of_mem member
    obtain ⟨s₀, a⟩ := x
    dsimp only at write
    subst write
    have write : earlier ++ (s₁, .throttle reason) :: (first ++ (s₀, .wrmsrl) :: second ++
          (s₂, .rdmsrl) :: later) =
        earlier ++ (s₁, .throttle reason) :: (first ++ (s₀, .wrmsrl) :: (second ++
          (s₂, .rdmsrl) :: later)) := by simp
    exact no_write_of_noEventInCall run apart write fun y inside => noRead y (by simp [inside])
  · intro earlier s₁ reason mid s₂ later split noRead
    exact absurd noRead (no_write_of_noEventInCall run apart split)

end Runs

/-- An event, and then a call that reports it. -/
theorem none_lost_before_call :
    ∃ trace s, Run step (.initial 0) trace s ∧ trace.map Prod.snd = [.throttle 0, .rdmsrl, .wrmsrl] ∧
      wordsRead trace = [0x10000] ∧ NoneLost trace := by
  have done : exec step (.initial 0) [.throttle 0, .rdmsrl, .wrmsrl] = some ⟨0, none, [0x10000]⟩ := by
    decide
  obtain ⟨trace, run, actions⟩ := run_of_exec done
  obtain ⟨words, iff⟩ := none_lost_iff run
  refine ⟨trace, _, run, actions, words, iff.mpr ?_⟩
  intro earlier s mid s' later split _ x member reason event
  -- What comes after the only read is one write.
  have after : earlier.map Prod.snd ++ .rdmsrl :: (mid.map Prod.snd ++ .wrmsrl :: later.map Prod.snd) =
      [.throttle 0, .rdmsrl, .wrmsrl] := by
    rw [← actions, split]
    simp
  match earlier with
  | [] => cases after
  | [_] =>
    match mid with
    | [] => cases member
    | _ :: _ => simp at after
  | _ :: _ :: _ =>
    have length := congrArg List.length after
    simp only [List.length_append, List.length_cons, List.length_map, List.length_nil] at length
    omega

/-- The first reason is logged between the read and the write of a call, and the next call does not
find it. -/
theorem event_lost : ¬ ∀ msr trace s, Run step (.initial msr) trace s → NoneLost trace := by
  intro always
  have done : exec step (.initial 0) [.rdmsrl, .throttle 0, .wrmsrl, .rdmsrl] =
      some ⟨0, some 0, [0]⟩ := by decide
  have lost := (always 0 _ _ (run_visits done)).reported [(⟨0, none, []⟩, .rdmsrl)] ⟨0, some 0, []⟩ 0
    [(⟨0x10000, some 0, []⟩, .wrmsrl)] ⟨0, none, [0]⟩ [] (by decide) (by simp)
  exact absurd lost (by decide)

end Xstats.Xstat.PerfLimit
