/-
**Lists whose elements keep a distance.**

* `Spaced.le`: elements that are `n` places apart are `n` distances apart.
* `isChain_concat`, `spaced_concat`: what a new last element has to keep.
* `sum_le_of_isChain`: where each element asks for a distance of its own, up to a slack.
-/

import Mathlib

namespace Spacing

variable {α : Type} {f : α → Nat} {d : Nat}

/-- Each element is at least `d` after the one before it. -/
def Spaced (f : α → Nat) (d : Nat) (l : List α) : Prop := l.IsChain fun a b => f a + d ≤ f b

theorem isChain_concat {R : α → α → Prop} {l : List α} {x : α} (chain : l.IsChain R)
    (last : ∀ a ∈ l.getLast?, R a x) : (l ++ [x]).IsChain R := by
  refine List.isChain_append.mpr ⟨chain, List.isChain_singleton x, fun a inLast b first => ?_⟩
  simp only [List.head?_cons, Option.mem_def, Option.some.injEq] at first
  exact first ▸ last a inLast

theorem spaced_concat {l : List α} {x : α} (spaced : Spaced f d l)
    (last : ∀ a ∈ l.getLast?, f a + d ≤ f x) : Spaced f d (l ++ [x]) := isChain_concat spaced last

/-- **Distances add up.** -/
theorem Spaced.le {l : List α} (spaced : Spaced f d l) {i n : Nat} {a b : α} (first : l[i]? = some a)
    (second : l[i + n]? = some b) : f a + n * d ≤ f b := by
  induction n generalizing b with
  | zero =>
    rw [Nat.add_zero, first] at second
    cases second
    omega
  | succ n ih =>
    have inside : i + n + 1 < l.length := (List.getElem?_eq_some_iff.mp second).1
    have before := ih (List.getElem?_eq_getElem (Nat.lt_of_succ_lt inside))
    have next := List.isChain_iff_getElem.mp spaced (i + n) inside
    have here : l[i + n + 1] = b := (List.getElem?_eq_some_iff.mp second).2
    rw [here] at next
    rw [Nat.succ_mul]
    omega

/-- **Costs add up** along a chain: from each element to the next goes by what it costs, less `e`. -/
theorem sum_le_of_isChain {c : α → Nat} {e : Nat} {l : List α} {last : α}
    (chain : (l ++ [last]).IsChain fun a b => f a + c a ≤ f b + e) :
    ∀ first ∈ (l ++ [last]).head?, f first + (l.map c).sum ≤ f last + l.length * e := by
  induction l with
  | nil =>
    intro first here
    cases here
    simp
  | cons a rest ih =>
    intro first here
    cases here
    obtain ⟨next, chain⟩ := List.isChain_cons.mp chain
    cases second : (rest ++ [last]).head? with
    | none => simp at second
    | some b =>
      have later := ih chain b second
      have step := next b second
      rw [List.map_cons, List.sum_cons, List.length_cons, Nat.succ_mul]
      omega

end Spacing
