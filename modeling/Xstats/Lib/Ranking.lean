/-
**Waits that end.**

In some of its states a system waits for a party, which `awaited` names by the steps that are the
party's own. A rank that these steps lower, and that no other step raises, bounds how many of them a wait
can take; if the party can always make one, nothing but the scheduler keeps the wait from its end.

* `Ranking.awaited_le`: no wait takes more of the awaited steps than the rank of its first state.
* `Ranking.ends`: the awaited steps alone end it.
-/

import Xstats.Lib.Transition

namespace Transition

variable {σ α : Type}

/-- A rank of the states in which the system waits. -/
structure Ranking (step : σ → α → Option σ) (ok : σ → α → Prop) (inv waiting : σ → Prop)
    (awaited : σ → α → Bool) (rank : σ → Nat) : Prop where
  keeps : ∀ {s a s'}, inv s → ok s a → step s a = some s' → inv s'
  falls : ∀ {s a s'}, inv s → waiting s → awaited s a = true → step s a = some s' → rank s' < rank s
  steady : ∀ {s a s'}, inv s → waiting s → awaited s a = false → step s a = some s' → rank s' ≤ rank s
  served : ∀ {s}, inv s → waiting s → ∃ a s', awaited s a = true ∧ ok s a ∧ step s a = some s'

namespace Ranking

variable {step : σ → α → Option σ} {ok : σ → α → Prop} {inv waiting : σ → Prop}
  {awaited : σ → α → Bool} {rank : σ → Nat}

/-- **A wait takes no more awaited steps than its rank**, however many other steps fall between. -/
theorem awaited_le (ranking : Ranking step ok inv waiting awaited rank) {s t : σ} (start : inv s)
    {trace : List (σ × α)} (run : Run step s trace t)
    (held : ∀ x ∈ trace, ok x.1 x.2 ∧ waiting x.1) :
    inv t ∧ trace.countP (fun x => awaited x.1 x.2) + rank t ≤ rank s := by
  induction run with
  | nil => exact ⟨start, by simp⟩
  | @snoc trace u t a _ taken ih =>
    obtain ⟨before, count⟩ := ih fun x member => held x (List.mem_append_left _ member)
    obtain ⟨allowed, waits⟩ := held (u, a) (by simp)
    refine ⟨ranking.keeps before allowed taken, ?_⟩
    rw [List.countP_append, List.countP_singleton]
    cases mine : awaited u a with
    | true =>
      have lower := ranking.falls before waits mine taken
      simp only [if_true]
      omega
    | false =>
      have lower := ranking.steady before waits mine taken
      simp only [Bool.false_eq_true, if_false]
      omega

/-- **The awaited steps alone end a wait.** -/
theorem ends (ranking : Ranking step ok inv waiting awaited rank) {s : σ} (start : inv s) :
    ∃ trace t, Run step s trace t ∧ ¬ waiting t ∧
      ∀ x ∈ trace, awaited x.1 x.2 = true ∧ ok x.1 x.2 ∧ waiting x.1 := by
  induction left : rank s using Nat.strongRecOn generalizing s with
  | ind n ih =>
    subst left
    by_cases waits : waiting s
    · obtain ⟨a, s', mine, allowed, taken⟩ := ranking.served start waits
      have lower := ranking.falls start waits mine taken
      obtain ⟨trace, t, run, done, all⟩ := ih _ lower (ranking.keeps start allowed taken) rfl
      refine ⟨(s, a) :: trace, t, .head taken run, done, fun x member => ?_⟩
      rcases List.mem_cons.mp member with rfl | later
      · exact ⟨mine, allowed, waits⟩
      · exact all x later
    · exact ⟨[], s, .nil, waits, fun x member => by cases member⟩

end Ranking

end Transition
