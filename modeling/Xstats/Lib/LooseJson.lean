/-
**Objects with a comma behind every member.**

A writer that puts a comma behind each member, the last one too, writes no JSON text. A reader that
takes this one comma out reads the object that was meant.

* `not_text_renderLoose`: with the comma it is no JSON text, whatever white space follows.
* `object_renderLoose`: without it, it is the object of the members.
* `parseLoose_renderLoose`: the reader that takes the comma out gives back the members.
* `parseLooseLines_renderLooseLines`: so it does for objects one below the other.
-/

import Xstats.Lib.Json
import Xstats.Lib.JsonLines

namespace FlatJson

open Decimal

/-! ### Writing and reading -/

/-- The object with a comma behind every member. -/
def renderLoose (ms : List Member) : List Char :=
  '{' :: (ms.flatMap fun m => renderMember m ++ [',']) ++ ['}']

/-- Read an object that has one comma before its closing brace. -/
def parseLoose (text : List Char) : Option (List Member) :=
  match text.reverse with
  | '}' :: ',' :: front => parse (front.reverse ++ ['}'])
  | _ => none

theorem flatMap_renderMember {ms : List Member} (some : ms ≠ []) :
    (ms.flatMap fun m => renderMember m ++ [',']) = renderMembers ms ++ [','] := by
  induction ms with
  | nil => exact absurd rfl some
  | cons m ms ih =>
    by_cases more : ms = []
    · subst more
      simp [renderMembers]
    · rw [List.flatMap_cons, ih more, renderMembers_cons m more]
      simp

theorem renderLoose_eq {ms : List Member} (some : ms ≠ []) :
    renderLoose ms = '{' :: renderMembers ms ++ [',', '}'] := by
  rw [renderLoose, flatMap_renderMember some]
  simp

/-- **With the comma it is no JSON text.** -/
theorem not_text_renderLoose {ms : List Member} (some : ms ≠ []) {after : List Char}
    (behind : Json.White after) : ¬ Json.Text (renderLoose ms ++ after) := by
  rw [renderLoose_eq some]
  have none := Json.not_text_of_comma ('{' :: renderMembers ms) Json.white_nil behind
  simpa using none

/-- **Without it, it is the object of the members.** -/
theorem object_renderLoose {ms : List Member} (some : ms ≠ [])
    (clean : ∀ m ∈ ms, ∀ c ∈ m.1, unescaped c) : Object ('{' :: renderMembers ms ++ ['}']) ms :=
  parse_sound (parse_render some clean)

/-- The reader that takes the comma out gives back the members. -/
theorem parseLoose_renderLoose {ms : List Member} (some : ms ≠ [])
    (clean : ∀ m ∈ ms, ∀ c ∈ m.1, unescaped c) : parseLoose (renderLoose ms) = .some ms := by
  have reversed : (renderLoose ms).reverse = '}' :: ',' :: ('{' :: renderMembers ms).reverse := by
    rw [renderLoose_eq some]
    simp
  rw [parseLoose, reversed]
  simp only [List.reverse_reverse]
  exact parse_render some clean

theorem newline_not_mem_renderLoose {ms : List Member} (some : ms ≠ [])
    (clean : ∀ m ∈ ms, ∀ c ∈ m.1, unescaped c) : '\n' ∉ renderLoose ms := by
  intro member
  rw [renderLoose_eq some, List.mem_append] at member
  rcases member with inside | marks
  · exact newline_not_mem_render clean (List.mem_append_left _ inside)
  · exact absurd marks (by decide)

/-- The objects of a text, if each of its lines is one with a comma too many. -/
def parseLooseLines (text : List Char) : Option (List (List Member)) := (readLines text).mapM parseLoose

/-- **Lines come back.** -/
theorem parseLooseLines_renderLooseLines {objects : List (List Member)} (some : ∀ ms ∈ objects, ms ≠ [])
    (clean : ∀ ms ∈ objects, ∀ m ∈ ms, ∀ c ∈ m.1, unescaped c) :
    parseLooseLines (objects.flatMap fun ms => renderLoose ms ++ ['\n']) = .some objects := by
  have lines : (objects.flatMap fun ms => renderLoose ms ++ ['\n']) =
      (objects.map renderLoose).flatMap fun line => line ++ ['\n'] := by
    rw [List.flatMap_map]
  have inside : ∀ line ∈ objects.map renderLoose, '\n' ∉ line := by
    intro line member
    obtain ⟨ms, here, rfl⟩ := List.mem_map.mp member
    exact newline_not_mem_renderLoose (some ms here) (clean ms here)
  rw [parseLooseLines, lines, readLines_flatMap inside,
    mapM_eq_some fun ms member => parseLoose_renderLoose (some ms member) (clean ms member),
    List.map_id']

end FlatJson
