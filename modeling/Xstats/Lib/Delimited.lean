/-
**Texts that tell where they end.**

A printer is delimited if of two values the texts, each with anything behind it, are the same only if the
values are, and what stands behind. Printers of this kind can be put together in a row.

* `Delimited.comp`, `delimited_natural`: the same after an injection; a number with a character behind it
  that is no digit.
* `flatMap_append_inj`: fields in a row, each with its own printer.
* `Delimited.flatMap_injective`: texts of a list of values, one behind the other, determine the list.
-/

import Xstats.Lib.Decimal

namespace Delimiting

open Decimal

variable {α β ι : Type}

/-- A printer whose texts tell where they end. -/
def Delimited (print : α → List Char) : Prop :=
  ∀ x y rest rest', print x ++ rest = print y ++ rest' → x = y ∧ rest = rest'

/-- Values that are told apart before they are printed. -/
theorem Delimited.comp {print : β → List Char} (delimited : Delimited print) {f : α → β}
    (injective : Function.Injective f) : Delimited fun x => print (f x) := by
  intro x y rest rest' same
  obtain ⟨values, behind⟩ := delimited _ _ _ _ same
  exact ⟨injective values, behind⟩

/-- A text in front of a printer's, the same for all values. -/
theorem Delimited.prefixed {print : α → List Char} (delimited : Delimited print) (front : List Char) :
    Delimited fun x => front ++ print x := by
  intro x y rest rest' same
  rw [List.append_assoc, List.append_assoc] at same
  exact delimited _ _ _ _ (List.append_cancel_left same)

/-- A text behind a printer's, the same for all values. -/
theorem Delimited.suffixed {print : α → List Char} (delimited : Delimited print) (back : List Char) :
    Delimited fun x => print x ++ back := by
  intro x y rest rest' same
  rw [List.append_assoc, List.append_assoc] at same
  obtain ⟨values, behind⟩ := delimited _ _ _ _ same
  exact ⟨values, List.append_cancel_left behind⟩

/-- A decimal number, and a character behind it that is no digit. -/
theorem delimited_natural {stop : Char} (noDigit : ¬ stop.isDigit) :
    Delimited fun n => natural n ++ [stop] := by
  intro x y rest rest' same
  rw [List.append_assoc, List.append_assoc] at same
  have read : ∀ n rest, readNatural (natural n ++ ([stop] ++ rest)) = some (n, stop :: rest) :=
    fun n rest => readNatural_natural n (by simpa using noDigit)
  have both := (read x rest).symm.trans ((congrArg readNatural same).trans (read y rest'))
  cases both
  exact ⟨rfl, rfl⟩

/-- **Fields in a row**, each with its own printer. -/
theorem flatMap_append_inj {print : ι → α → List Char} {fields : List ι}
    (delimited : ∀ i ∈ fields, Delimited (print i)) {x y : ι → α} {rest rest' : List Char}
    (same : (fields.flatMap fun i => print i (x i)) ++ rest =
      (fields.flatMap fun i => print i (y i)) ++ rest') :
    (∀ i ∈ fields, x i = y i) ∧ rest = rest' := by
  induction fields with
  | nil => exact ⟨fun _ member => (by cases member), same⟩
  | cons i fields ih =>
    rw [List.flatMap_cons, List.flatMap_cons, List.append_assoc, List.append_assoc] at same
    obtain ⟨first, others⟩ := delimited i List.mem_cons_self _ _ _ _ same
    obtain ⟨later, behind⟩ := ih (fun j member => delimited j (List.mem_cons_of_mem _ member)) others
    refine ⟨fun j member => ?_, behind⟩
    rcases List.mem_cons.mp member with rfl | member
    · exact first
    · exact later j member

/-- **Texts one behind the other.** -/
theorem Delimited.flatMap_injective {print : α → List Char} (delimited : Delimited print)
    (some : ∀ x, print x ≠ []) : Function.Injective fun xs : List α => xs.flatMap print := by
  intro xs ys same
  dsimp only at same
  induction xs generalizing ys with
  | nil =>
    cases ys with
    | nil => rfl
    | cons y ys =>
      rw [List.flatMap_nil, List.flatMap_cons] at same
      exact absurd (List.append_eq_nil_iff.mp same.symm).1 (some y)
  | cons x xs ih =>
    cases ys with
    | nil =>
      rw [List.flatMap_nil, List.flatMap_cons] at same
      exact absurd (List.append_eq_nil_iff.mp same).1 (some x)
    | cons y ys =>
      rw [List.flatMap_cons, List.flatMap_cons] at same
      obtain ⟨first, others⟩ := delimited _ _ _ _ same
      rw [first, ih others]

end Delimiting
