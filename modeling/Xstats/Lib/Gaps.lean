/-
**Telling from a subsequence where something is missing.**

A sequence is handed on with some of its elements left out, in order. Where each element says which one
it comes after, so that no two elements of the sequence can come before the same one, the receiver sees
every gap: what he has is one piece of the sequence exactly if each element he has says that it comes
after the one he has before it.

* `infix_iff_isChain`: the statement, for any relation `link`.
* `adjacent_iff`: the same of two neighbours among what he has.
-/

import Mathlib.Data.List.Chain
import Mathlib.Data.List.Infix

namespace Gaps

variable {α : Type} {link : α → α → Prop}

/-- No two elements of the list come before the same one. -/
def LeftUnique (link : α → α → Prop) (whole : List α) : Prop :=
  ∀ a ∈ whole, ∀ b ∈ whole, ∀ c, link a c → link b c → a = b

theorem LeftUnique.tail {x : α} {whole : List α} (unique : LeftUnique link (x :: whole)) :
    LeftUnique link whole :=
  fun a inA b inB => unique a (List.mem_cons_of_mem x inA) b (List.mem_cons_of_mem x inB)

/-- A linked subsequence leaves nothing out between its elements. -/
theorem infix_of_isChain {whole part : List α} (chain : whole.IsChain link) (distinct : whole.Nodup)
    (unique : LeftUnique link whole) (sublist : part.Sublist whole) (linked : part.IsChain link) :
    part <:+: whole := by
  induction sublist with
  | slnil => exact List.infix_rfl
  | cons x _ ih =>
    exact List.infix_cons (ih chain.tail (List.nodup_cons.mp distinct).2 unique.tail linked)
  | @cons_cons part whole x sublist ih =>
    cases part with
    | nil => exact ⟨[], whole, rfl⟩
    | cons y rest =>
      have later := ih chain.tail (List.nodup_cons.mp distinct).2 unique.tail linked.tail
      obtain ⟨front, back, split⟩ := later
      cases front using List.reverseRecOn with
      | nil => exact ⟨[], back, by simp [← split]⟩
      | append_singleton front p =>
        -- Whatever stands before `y` in the whole is `x`, and `x` stands before that already.
        have before : link p y := by
          have inner := chain.tail
          rw [← split, List.append_assoc, List.append_assoc] at inner
          exact (List.isChain_cons_cons.mp (List.isChain_append.mp inner).2.1).1
        have inside : p ∈ whole := by
          rw [← split]
          simp
        have same : p = x := unique p (List.mem_cons_of_mem x inside) x List.mem_cons_self y before
          (List.isChain_cons_cons.mp linked).1
        exact absurd (same ▸ inside) (List.nodup_cons.mp distinct).1

/-- **Gaps are seen.** A subsequence of a linked sequence is one piece of it if and only if it is linked
itself. -/
theorem infix_iff_isChain {whole part : List α} (chain : whole.IsChain link) (distinct : whole.Nodup)
    (unique : LeftUnique link whole) (sublist : part.Sublist whole) :
    part <:+: whole ↔ part.IsChain link :=
  ⟨fun piece => chain.infix piece, infix_of_isChain chain distinct unique sublist⟩

/-- Two neighbours in a subsequence are neighbours in the whole exactly if they are linked. -/
theorem adjacent_iff {whole front back : List α} {x y : α} (chain : whole.IsChain link)
    (distinct : whole.Nodup) (unique : LeftUnique link whole)
    (sublist : (front ++ x :: y :: back).Sublist whole) : [x, y] <:+: whole ↔ link x y := by
  have two : [x, y].Sublist (front ++ x :: y :: back) :=
    ((List.sublist_append_left [x, y] back).trans (List.sublist_append_right front _))
  rw [infix_iff_isChain chain distinct unique (two.trans sublist), List.isChain_pair]

end Gaps
