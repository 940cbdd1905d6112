/-
**Records of words, shown field by field.**

A record is some words. A layout says of each word which of its fields are shown, and under which labels.
If the labels differ and the fields of a word cover it without overlapping, the labelled numbers tell the
record.

* `Layout.read_members`: reading the labelled numbers gives back the record.
* `Layout.readRecords_lines`: so does reading their text, one record below the other, with a comma behind
  every number.
-/

import Xstats.Lib.BitFields
import Xstats.Lib.LooseJson

namespace LabelledWords

open BitFields FlatJson

/-- The fields shown of each of `n` words, with their labels. -/
abbrev Layout (n : Nat) := Fin n → List (List Char × Field)

namespace Layout

variable {n w : Nat} (layout : Layout n)

/-- The labels in the order they are shown. -/
def labels : List (List Char) := (List.finRange n).flatMap fun i => (layout i).map Prod.fst

/-- What is shown of a record. -/
def members (record : Fin n → BitVec w) : List Member :=
  (List.finRange n).flatMap fun i => (layout i).map fun x => (x.1, (x.2.get (record i) : Int))

/-- The record that labelled numbers tell, where a label that is missing stands for zero. -/
def read (w : Nat) (ms : List Member) : Fin n → BitVec w :=
  fun i => Field.assign 0 ((layout i).map fun x => (x.2, ((ms.lookup x.1).getD 0).toNat))

/-- The labels differ and need no escape, and the fields of each word cover it without overlapping. -/
structure Complete (w : Nat) : Prop where
  distinct : layout.labels.Nodup
  clean : ∀ label ∈ layout.labels, ∀ c ∈ label, unescaped c
  some : layout.labels ≠ []
  fits : ∀ i, ∀ f ∈ (layout i).map Prod.snd, f.offset + f.width ≤ w
  apart : ∀ i, ((layout i).map Prod.snd).Pairwise Field.Apart
  covered : ∀ i, ∀ b < w, ∃ f ∈ (layout i).map Prod.snd, f.Has b

variable {layout}

theorem keys_members (record : Fin n → BitVec w) : (layout.members record).map Prod.fst = layout.labels := by
  simp [members, labels, List.map_flatMap, Function.comp_def]

/-- **The labelled numbers tell the record.** -/
theorem read_members (complete : layout.Complete w) (record : Fin n → BitVec w) :
    layout.read w (layout.members record) = record := by
  have distinct : ((layout.members record).map Prod.fst).Nodup := by
    rw [keys_members]
    exact complete.distinct
  funext i
  have shown : ∀ x ∈ layout i, (layout.members record).lookup x.1 = some (x.2.get (record i) : Int) := by
    intro x member
    refine lookup_of_mem distinct (m := (x.1, (x.2.get (record i) : Int))) ?_
    exact List.mem_flatMap.mpr ⟨i, List.mem_finRange i, List.mem_map_of_mem member⟩
  refine Field.eq_of_get_eq (complete.covered i) fun f member => ?_
  obtain ⟨x, inside, rfl⟩ := List.mem_map.mp member
  have fields : ((layout i).map fun x => (x.2, (((layout.members record).lookup x.1).getD 0).toNat)).map
      Prod.fst = (layout i).map Prod.snd := by
    rw [List.map_map]
    rfl
  have assigned := Field.get_assign (fields ▸ complete.fits i) (fields ▸ complete.apart i) (0 : BitVec w)
    (List.mem_map_of_mem inside)
  rw [read, assigned, shown x inside]
  exact Nat.mod_eq_of_lt (x.2.get_lt (record i))

theorem members_ne_nil (complete : layout.Complete w) (record : Fin n → BitVec w) :
    layout.members record ≠ [] := by
  intro empty
  have none : (layout.members record).map Prod.fst = layout.labels := keys_members record
  rw [empty] at none
  exact complete.some none.symm

theorem clean_members (complete : layout.Complete w) (record : Fin n → BitVec w) :
    ∀ m ∈ layout.members record, ∀ c ∈ m.1, unescaped c := by
  intro m member
  refine complete.clean m.1 ?_
  rw [← keys_members record]
  exact List.mem_map_of_mem member

/-! ### Text -/

variable (layout)

/-- The line of a record, with a comma behind every number. -/
def looseLine (record : Fin n → BitVec w) : List Char := renderLoose (layout.members record) ++ ['\n']

/-- The line, word by word. -/
theorem looseLine_eq (record : Fin n → BitVec w) :
    layout.looseLine record = '{' :: ((List.finRange n).flatMap fun i => (layout i).flatMap fun x =>
      renderMember (x.1, (x.2.get (record i) : Int)) ++ [',']) ++ ['}', '\n'] := by
  simp [looseLine, renderLoose, members, List.flatMap_assoc, List.flatMap_map]

/-- The records of a text of such lines. -/
def readRecords (w : Nat) (text : List Char) : Option (List (Fin n → BitVec w)) :=
  (parseLooseLines text).map fun objects => objects.map (layout.read w)

variable {layout}

/-- **The text tells the records.** -/
theorem readRecords_lines (complete : layout.Complete w) (records : List (Fin n → BitVec w)) :
    layout.readRecords w (records.flatMap layout.looseLine) = some records := by
  have objects : records.flatMap layout.looseLine =
      (records.map layout.members).flatMap fun ms => renderLoose ms ++ ['\n'] := by
    rw [List.flatMap_map]
    rfl
  have parsed : parseLooseLines (records.flatMap layout.looseLine) = some (records.map layout.members) := by
    rw [objects]
    refine parseLooseLines_renderLooseLines (fun ms member => ?_) fun ms member => ?_
    · obtain ⟨record, _, rfl⟩ := List.mem_map.mp member
      exact members_ne_nil complete record
    · obtain ⟨record, _, rfl⟩ := List.mem_map.mp member
      exact clean_members complete record
  rw [readRecords, parsed, Option.map_some, List.map_map]
  have each : layout.read w ∘ layout.members = id := funext (read_members complete)
  rw [each, List.map_id]

end Layout

end LabelledWords
