/-
**Objects one below the other.**

A text of JSON objects, each on a line of its own, and how to read it: cut it at the newlines, and parse
each line.

* `readLines_flatMap`: lines without a newline inside come back.
* `parseLines_renderLines`: so do objects whose keys need no escape.
-/

import Xstats.Lib.FlatJson

namespace FlatJson

/-! ### Lines -/

/-- The lines of a text, where `line` was read of the first one. -/
def linesFrom (line : List Char) : List Char → List (List Char)
  | [] => if line.isEmpty then [] else [line]
  | c :: rest => if c = '\n' then line :: linesFrom [] rest else linesFrom (line ++ [c]) rest

/-- The lines of a text. -/
def readLines (text : List Char) : List (List Char) := linesFrom [] text

theorem linesFrom_append {text : List Char} (inside : '\n' ∉ text) (line rest : List Char) :
    linesFrom line (text ++ '\n' :: rest) = (line ++ text) :: linesFrom [] rest := by
  induction text generalizing line with
  | nil => simp [linesFrom]
  | cons c text ih =>
    rw [List.mem_cons, not_or] at inside
    rw [List.cons_append, linesFrom, if_neg (Ne.symm inside.1), ih inside.2]
    simp

/-- **Lines come back.** -/
theorem readLines_flatMap {lines : List (List Char)} (clean : ∀ line ∈ lines, '\n' ∉ line) :
    readLines (lines.flatMap fun line => line ++ ['\n']) = lines := by
  induction lines with
  | nil => rfl
  | cons line lines ih =>
    have shape : ((line :: lines).flatMap fun line => line ++ ['\n']) =
        line ++ '\n' :: lines.flatMap fun line => line ++ ['\n'] := by simp
    rw [shape, readLines, linesFrom_append (clean line List.mem_cons_self), List.nil_append]
    exact congrArg (line :: ·) (ih fun later member => clean later (List.mem_cons_of_mem _ member))

/-! ### Objects -/

/-- A reading that succeeds on each element. -/
theorem mapM_eq_some {α β γ : Type} {read : α → Option β} {write : γ → α} {value : γ → β}
    {xs : List γ} (each : ∀ x ∈ xs, read (write x) = some (value x)) :
    (xs.map write).mapM read = some (xs.map value) := by
  induction xs with
  | nil => rfl
  | cons x xs ih =>
    have rest := ih fun y member => each y (List.mem_cons_of_mem x member)
    rw [List.map_cons, List.mapM_cons, each x List.mem_cons_self, rest]
    rfl

/-- Objects one below the other. -/
def renderLines (objects : List (List Member)) : List Char :=
  objects.flatMap fun ms => render ms ++ ['\n']

/-- The objects of a text, if each of its lines is one. -/
def parseLines (text : List Char) : Option (List (List Member)) := (readLines text).mapM parse

/-- **Objects come back.** -/
theorem parseLines_renderLines {objects : List (List Member)} (some : ∀ ms ∈ objects, ms ≠ [])
    (clean : ∀ ms ∈ objects, ∀ m ∈ ms, ∀ c ∈ m.1, unescaped c) :
    parseLines (renderLines objects) = .some objects := by
  have lines : renderLines objects = (objects.map render).flatMap fun line => line ++ ['\n'] := by
    simp [renderLines, List.flatMap_map]
  have inside : ∀ line ∈ objects.map render, '\n' ∉ line := by
    intro line member
    obtain ⟨ms, here, rfl⟩ := List.mem_map.mp member
    exact newline_not_mem_render (clean ms here)
  rw [parseLines, lines, readLines_flatMap inside,
    mapM_eq_some fun ms member => parse_render (some ms member) (clean ms member), List.map_id']

end FlatJson
