/-
**Runs that a specification allows.**

A specification is a relation on its own states, with labels for what can be seen of its steps. A system
refines it where every step of the system, seen through an abstraction function, is some steps of the
specification, which may be none.

* `Does.append`: histories that follow each other.
* `Refines.run`: what is seen of a run is a history that the specification allows.
-/

import Xstats.Lib.Transition

namespace Transition

variable {σ α τ β : Type}

/-- The specification may go from one state to another, showing these labels. -/
inductive Does (spec : τ → β → τ → Prop) (start : τ) : List β → τ → Prop
  | nil : Does spec start [] start
  | snoc {labels : List β} {v v' : τ} {b : β} :
      Does spec start labels v → spec v b v' → Does spec start (labels ++ [b]) v'

namespace Does

variable {spec : τ → β → τ → Prop} {start v w : τ} {labels later : List β}

theorem one {b : β} (step : spec v b w) : Does spec v [b] w := Does.nil.snoc step

theorem append (first : Does spec start labels v) (second : Does spec v later w) :
    Does spec start (labels ++ later) w := by
  induction second with
  | nil => rwa [List.append_nil]
  | snoc _ step ih =>
    rw [← List.append_assoc]
    exact ih.snoc step

end Does

/-- Every step of the system is steps of the specification. -/
structure Refines (step : σ → α → Option σ) (spec : τ → β → τ → Prop) (inv : σ → Prop) (view : σ → τ)
    (label : σ → α → List β) : Prop where
  keeps : ∀ {s a s'}, inv s → step s a = some s' → inv s'
  matched : ∀ {s a s'}, inv s → step s a = some s' → Does spec (view s) (label s a) (view s')

/-- **What is seen of a run**, the specification allows. -/
theorem Refines.run {step : σ → α → Option σ} {spec : τ → β → τ → Prop} {inv : σ → Prop} {view : σ → τ}
    {label : σ → α → List β} (refines : Refines step spec inv view label) {start s : σ}
    (init : inv start) {trace : List (σ × α)} (run : Run step start trace s) :
    inv s ∧ Does spec (view start) (trace.flatMap fun x => label x.1 x.2) (view s) := by
  induction run with
  | nil => exact ⟨init, .nil⟩
  | snoc _ taken ih =>
    obtain ⟨before, does⟩ := ih
    refine ⟨refines.keeps before taken, ?_⟩
    rw [List.flatMap_append, List.flatMap_singleton]
    exact does.append (refines.matched before taken)

end Transition
