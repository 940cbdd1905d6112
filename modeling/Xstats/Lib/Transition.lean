/-
**Runs of a transition system, and the invariant rule.**

A system is a partial step function `step : σ → α → Option σ`: the action `a` is possible in the
state `s` when `step s a` is `some`. A run keeps, for every step it took, the state before it and
the action, so that a condition on the steps of a run (which actions were scheduled, in which
states) is a condition on a list.

* `Run.invariant`: what the start satisfies and every step allowed by `ok` preserves holds at the
  end of every run whose steps are all allowed.
* `Run.visited`: it also holds in the state before each step of that run.
* `Run.ghost`: the rule where a ghost goes along that each step updates; `Run.before`,
  `Run.after`: a run up to one of its steps, and from there on.
* `Run.related`: the invariant rule for two runs taken step by step together.
* `exec`, `visits`: the system run on a list of actions, for runs on given inputs and for two runs of
  the same schedule; `guarded`: the system with a check before each step; `paired`: two systems that
  step together, with a check of their two steps.
* `update_eq_iff`: what is found in a table of which one place was written.
-/

import Mathlib.Data.List.Forall2
import Mathlib.Data.List.Induction
import Mathlib.Logic.Function.Basic

namespace Transition

variable {σ α : Type}

/-- The runs of `step` from `start`: the steps taken, oldest first, and the state reached. -/
inductive Run (step : σ → α → Option σ) (start : σ) : List (σ × α) → σ → Prop
  | nil : Run step start [] start
  | snoc {trace : List (σ × α)} {s s' : σ} {a : α} :
      Run step start trace s → step s a = some s' → Run step start (trace ++ [(s, a)]) s'

/-- A state that some run reaches. -/
def Reachable (step : σ → α → Option σ) (start s : σ) : Prop :=
  ∃ trace, Run step start trace s

section Invariants

variable {step : σ → α → Option σ} {start s : σ} {trace : List (σ × α)}

/-- **The invariant rule**, for runs whose steps all satisfy `ok`. -/
theorem Run.invariant {P : σ → Prop} (ok : σ → α → Prop) (init : P start)
    (preserve : ∀ s a s', P s → ok s a → step s a = some s' → P s')
    (run : Run step start trace s) (allowed : ∀ x ∈ trace, ok x.1 x.2) : P s := by
  induction run with
  | nil => exact init
  | snoc _ taken ih =>
    have before := ih fun x member => allowed x (List.mem_append_left _ member)
    exact preserve _ _ _ before (allowed (_, _) (by simp)) taken

/-- The invariant holds in the state before every step of such a run. -/
theorem Run.visited {P : σ → Prop} (ok : σ → α → Prop) (init : P start)
    (preserve : ∀ s a s', P s → ok s a → step s a = some s' → P s')
    (run : Run step start trace s) (allowed : ∀ x ∈ trace, ok x.1 x.2) :
    ∀ x ∈ trace, P x.1 := by
  induction run with
  | nil => exact fun x member => by cases member
  | snoc earlier _ ih =>
    intro x member
    have allowedBefore := fun y inside => allowed y (List.mem_append_left _ inside)
    rcases List.mem_append.mp member with old | new
    · exact ih allowedBefore x old
    · rw [List.mem_singleton] at new
      subst new
      exact earlier.invariant ok init preserve allowedBefore

/-- Every step of a run was possible. -/
theorem Run.taken (run : Run step start trace s) :
    ∀ x ∈ trace, ∃ s', step x.1 x.2 = some s' := by
  induction run with
  | nil => exact fun x member => by cases member
  | snoc _ taken ih =>
    intro x member
    rcases List.mem_append.mp member with old | new
    · exact ih x old
    · rw [List.mem_singleton] at new
      subst new
      exact ⟨_, taken⟩

/-- A run up to one of its steps. -/
theorem Run.before {earlier later : List (σ × α)} {x : σ × α}
    (run : Run step start (earlier ++ x :: later) s) : Run step start earlier x.1 := by
  generalize whole : earlier ++ x :: later = trace at run
  induction run generalizing later with
  | nil => simp at whole
  | @snoc trace s s' a before _ ih =>
    cases later using List.reverseRecOn with
    | nil =>
      obtain ⟨rfl, last⟩ := List.append_inj' whole rfl
      cases last
      exact before
    | append_singleton later y =>
      rw [← List.cons_append, ← List.append_assoc] at whole
      obtain ⟨rest, _⟩ := List.append_inj' whole rfl
      exact ih rest

/-- A run from one of its steps on. -/
theorem Run.after {earlier later : List (σ × α)} {x : σ × α}
    (run : Run step start (earlier ++ x :: later) s) :
    ∃ s', step x.1 x.2 = some s' ∧ Run step s' later s := by
  generalize whole : earlier ++ x :: later = trace at run
  induction run generalizing later with
  | nil => simp at whole
  | @snoc trace s s' a before taken ih =>
    cases later using List.reverseRecOn with
    | nil =>
      obtain ⟨_, last⟩ := List.append_inj' whole rfl
      cases last
      exact ⟨s', taken, .nil⟩
    | append_singleton later y =>
      rw [← List.cons_append, ← List.append_assoc] at whole
      obtain ⟨rest, last⟩ := List.append_inj' whole rfl
      cases last
      obtain ⟨first, same, run⟩ := ih rest
      exact ⟨first, same, run.snoc taken⟩

/-- A prefix of a run is a run. -/
theorem Run.of_prefix {earlier : List (σ × α)} (run : Run step start trace s)
    (isPrefix : earlier <+: trace) : ∃ s', Run step start earlier s' := by
  obtain ⟨later, rfl⟩ := isPrefix
  cases later with
  | nil => exact ⟨s, List.append_nil earlier ▸ run⟩
  | cons x later => exact ⟨x.1, run.before⟩

/-- The invariant rule with a ghost `g` that every step updates. -/
theorem Run.ghost {γ : Type} {P : σ → γ → Prop} (update : γ → σ × α → γ) {g : γ} (ok : σ → α → Prop)
    (init : P start g)
    (preserve : ∀ s a s' g, P s g → ok s a → step s a = some s' → P s' (update g (s, a)))
    (run : Run step start trace s) (allowed : ∀ x ∈ trace, ok x.1 x.2) :
    P s (trace.foldl update g) := by
  induction run with
  | nil => exact init
  | snoc _ taken ih =>
    have before := ih fun x member => allowed x (List.mem_append_left _ member)
    rw [List.foldl_append]
    exact preserve _ _ _ _ before (allowed (_, _) (by simp)) taken

/-- A run from the next state is one from this state. -/
theorem Run.head {middle : σ} {a : α} (taken : step start a = some middle)
    (later : Run step middle trace s) : Run step start ((start, a) :: trace) s := by
  induction later with
  | nil => exact Run.nil.snoc taken
  | snoc _ last ih => exact ih.snoc last

/-- A state reached from the next one is reached from this one. -/
theorem Reachable.head {middle : σ} {a : α} (taken : step start a = some middle)
    (later : Reachable step middle s) : Reachable step start s := by
  obtain ⟨trace, run⟩ := later
  exact ⟨_, .head taken run⟩

/-- The invariant rule without a condition on the steps. -/
theorem Reachable.invariant {P : σ → Prop} (init : P start)
    (preserve : ∀ s a s', P s → step s a = some s' → P s')
    (reachable : Reachable step start s) : P s := by
  obtain ⟨trace, run⟩ := reachable
  exact run.invariant (fun _ _ => True) init
    (fun s a s' before _ taken => preserve s a s' before taken) fun _ _ => trivial

end Invariants

/-! ### Two runs -/

section Related

variable {τ β : Type} {step : σ → α → Option σ} {step' : τ → β → Option τ} {start : σ} {start' : τ}

/-- The last of related lists are related. -/
theorem forall₂_concat {γ δ : Type} {R : γ → δ → Prop} {first : List γ} {x : γ} {second : List δ}
    {y : δ} (related : List.Forall₂ R (first ++ [x]) (second ++ [y])) :
    List.Forall₂ R first second ∧ R x y := by
  have reversed := List.rel_reverse related
  rw [List.reverse_append, List.reverse_append] at reversed
  cases reversed with
  | cons last earlier => exact ⟨List.forall₂_reverse_iff.mp earlier, last⟩

/-- **The rule for two runs**: what the starts satisfy, and every two steps related by `Q` preserve,
holds at the ends of two runs whose steps are related one by one. -/
theorem Run.related {R : σ → τ → Prop} {Q : σ × α → τ × β → Prop} (init : R start start')
    (preserve : ∀ s t a b s' t', R s t → Q (s, a) (t, b) → step s a = some s' →
      step' t b = some t' → R s' t')
    {trace : List (σ × α)} {s : σ} (run : Run step start trace s) {trace' : List (τ × β)} {t : τ}
    (run' : Run step' start' trace' t) (same : List.Forall₂ Q trace trace') : R s t := by
  induction run generalizing trace' t with
  | nil =>
    cases same
    generalize empty : ([] : List (τ × β)) = trace' at run'
    cases run' with
    | nil => exact init
    | snoc => simp at empty
  | snoc _ taken ih =>
    cases run' with
    | nil =>
      have lengths := same.length_eq
      simp at lengths
    | snoc earlier' taken' =>
      obtain ⟨before, last⟩ := forall₂_concat same
      exact preserve _ _ _ _ _ _ (ih earlier' before) last taken taken'

/-- Two systems that step together where a check admits their steps. -/
def paired (check : σ × α → τ × β → Bool) (step : σ → α → Option σ) (step' : τ → β → Option τ)
    (x : σ × τ) (a : α × β) : Option (σ × τ) :=
  if check (x.1, a.1) (x.2, a.2) then do
    let s ← step x.1 a.1
    let t ← step' x.2 a.2
    return (s, t)
  else none

/-- A run of the pair is a run of each, and the check admitted each two of their steps. -/
theorem Run.of_paired {check : σ × α → τ × β → Bool} {trace : List ((σ × τ) × α × β)} {x : σ × τ}
    (run : Run (paired check step step') (start, start') trace x) :
    ∃ first second, Run step start first x.1 ∧ Run step' start' second x.2 ∧
      List.Forall₂ (fun p q => check p q = true) first second := by
  induction run with
  | nil => exact ⟨[], [], .nil, .nil, .nil⟩
  | @snoc trace x y a _ taken ih =>
    obtain ⟨first, second, run, run', same⟩ := ih
    obtain ⟨admitted, both⟩ := Option.ite_none_right_eq_some.mp taken
    simp only [Option.bind_eq_bind, Option.bind_eq_some_iff] at both
    obtain ⟨s, step, t, step', ends⟩ := both
    cases ends
    exact ⟨_, _, run.snoc step, run'.snoc step',
      List.rel_append same (.cons admitted .nil)⟩

end Related

/-! ### Running a list of actions -/

/-- The state after the actions, `none` if one of them was not possible. -/
def exec (step : σ → α → Option σ) : σ → List α → Option σ
  | s, [] => some s
  | s, a :: rest => (step s a).bind fun s' => exec step s' rest

theorem exec_append (step : σ → α → Option σ) (s : σ) (first second : List α) :
    exec step s (first ++ second) = (exec step s first).bind fun s' => exec step s' second := by
  induction first generalizing s with
  | nil => rfl
  | cons a rest ih =>
    simp only [List.cons_append, exec]
    cases step s a with
    | none => rfl
    | some s' => exact ih s'

/-- Every list of actions that can be executed is a run. -/
theorem run_of_exec {step : σ → α → Option σ} {start s : σ} {actions : List α}
    (done : exec step start actions = some s) :
    ∃ trace, Run step start trace s ∧ trace.map Prod.snd = actions := by
  induction actions using List.reverseRecOn generalizing s with
  | nil =>
    cases done
    exact ⟨[], .nil, rfl⟩
  | append_singleton earlier a ih =>
    rw [exec_append, Option.bind_eq_some_iff] at done
    obtain ⟨middle, reached, last⟩ := done
    obtain ⟨trace, run, same⟩ := ih reached
    have taken : step middle a = some s := by simpa [exec] using last
    exact ⟨trace ++ [(middle, a)], run.snoc taken, by simp [same]⟩

/-- The steps taken by the actions, with the states before them, up to the first that was not
possible. -/
def visits (step : σ → α → Option σ) : σ → List α → List (σ × α)
  | _, [] => []
  | s, a :: rest =>
    match step s a with
    | none => []
    | some s' => (s, a) :: visits step s' rest

theorem visits_append {step : σ → α → Option σ} {start s : σ} {first : List α}
    (done : exec step start first = some s) (second : List α) :
    visits step start (first ++ second) = visits step start first ++ visits step s second := by
  induction first generalizing start with
  | nil =>
    cases done
    rfl
  | cons a rest ih =>
    obtain ⟨middle, taken, later⟩ := Option.bind_eq_some_iff.mp done
    simp only [List.cons_append, visits, taken]
    rw [ih later]

/-- A list of actions that can be executed, with the steps of its run. -/
theorem run_visits {step : σ → α → Option σ} {start s : σ} {actions : List α}
    (done : exec step start actions = some s) : Run step start (visits step start actions) s := by
  induction actions using List.reverseRecOn generalizing s with
  | nil =>
    cases done
    exact .nil
  | append_singleton earlier a ih =>
    rw [exec_append, Option.bind_eq_some_iff] at done
    obtain ⟨middle, reached, last⟩ := done
    have taken : step middle a = some s := by simpa [exec] using last
    rw [visits_append reached]
    simpa [visits, taken] using (ih reached).snoc taken

/-- A run on given actions, and what a test says of the state it reaches. -/
theorem run_of_exec_any {step : σ → α → Option σ} {start : σ} {actions : List α} {test : σ → Bool}
    (done : (exec step start actions).any test) :
    ∃ trace s, Run step start trace s ∧ trace.map Prod.snd = actions ∧ test s = true := by
  obtain ⟨s, reached, passed⟩ := (Option.any_eq_true _ _).mp done
  obtain ⟨trace, run, same⟩ := run_of_exec reached
  exact ⟨trace, s, run, same, passed⟩

/-- The system that takes only the steps a check admits. -/
def guarded (check : σ → α → Bool) (step : σ → α → Option σ) (s : σ) (a : α) : Option σ :=
  if check s a then step s a else none

/-- A run of the guarded system is a run, and the check admitted each of its steps. -/
theorem Run.of_guarded {check : σ → α → Bool} {step : σ → α → Option σ} {start s : σ}
    {trace : List (σ × α)} (run : Run (guarded check step) start trace s) :
    Run step start trace s ∧ ∀ x ∈ trace, check x.1 x.2 = true := by
  induction run with
  | nil => exact ⟨.nil, fun x member => by cases member⟩
  | snoc _ taken ih =>
    obtain ⟨admitted, step⟩ := Option.ite_none_right_eq_some.mp taken
    refine ⟨ih.1.snoc step, fun x member => ?_⟩
    rcases List.mem_append.mp member with old | new
    · exact ih.2 x old
    · rw [List.mem_singleton] at new
      subst new
      exact admitted

/-! ### Tables of parties -/

/-- What is found in a table of which one place was written. -/
theorem update_eq_iff {κ β : Type} [DecidableEq κ] {table : κ → β} {k k' : κ} {b y : β} :
    Function.update table k b k' = y ↔ (k' = k ∧ b = y) ∨ (k' ≠ k ∧ table k' = y) := by
  rw [Function.update_apply, ite_eq_iff]

end Transition
