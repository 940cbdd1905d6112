/-
**Text written piece by piece into a bounded buffer.**

`scnprintf limit text` is the kernel's `scnprintf` with its arguments already formatted: it writes
at most `limit - 1` characters and returns how many it wrote, never a negative number. A `Cursor`
is the idiom that threads it: `ret = scnprintf(ptr, limit, ...); ptr += ret; limit -= ret`.

* `Cursor.putAll_eq`: writing pieces one after the other is writing their concatenation once,
  whichever piece the limit cuts, and also where nothing is left of it.
* `scnprintf_of_fits`: nothing is cut from a text shorter than the limit.
-/

import Mathlib.Data.List.Basic

namespace BoundedText

/-- The characters `scnprintf` writes into a buffer of `limit` bytes, one kept for the NUL. -/
def scnprintf (limit : Int) (text : List Char) : List Char := text.take (limit - 1).toNat

theorem scnprintf_of_fits {limit : Int} {text : List Char} (fits : text.length < limit) :
    scnprintf limit text = text :=
  List.take_of_length_le (by omega)

/-- The text written so far and what is left of the limit. -/
structure Cursor where
  text : List Char
  limit : Int

namespace Cursor

/-- An empty buffer of `limit` bytes. -/
def start (limit : Int) : Cursor := ⟨[], limit⟩

/-- Count characters that were written at the cursor. -/
def advance (c : Cursor) (written : List Char) : Cursor :=
  ⟨c.text ++ written, c.limit - written.length⟩

/-- Write one piece at the cursor. -/
def put (c : Cursor) (piece : List Char) : Cursor := c.advance (scnprintf c.limit piece)

/-- Write several pieces. -/
def putAll (c : Cursor) (pieces : List (List Char)) : Cursor := pieces.foldl put c

@[simp] theorem putAll_nil (c : Cursor) : c.putAll [] = c := rfl

@[simp] theorem putAll_cons (c : Cursor) (piece : List Char) (pieces : List (List Char)) :
    c.putAll (piece :: pieces) = (c.put piece).putAll pieces := rfl

/-- Two pieces one after the other are one piece. -/
theorem put_put (c : Cursor) (first second : List Char) :
    (c.put first).put second = c.put (first ++ second) := by
  obtain ⟨text, limit⟩ := c
  simp only [put, advance, scnprintf, List.append_assoc]
  rcases Nat.le_total first.length (limit - 1).toNat with short | long
  · have room : (limit - (first.length : Int) - 1).toNat = (limit - 1).toNat - first.length := by
      omega
    rw [List.take_of_length_le short, room, List.take_append, List.take_of_length_le short]
    simp only [List.length_append, mk.injEq, true_and]
    omega
  · have written : (first.take (limit - 1).toNat).length = (limit - 1).toNat := by
      rw [List.length_take, Nat.min_eq_left long]
    have room : (limit - ((limit - 1).toNat : Int) - 1).toNat = 0 := by omega
    rw [written, room, List.take_append_of_le_length long, written]
    simp only [List.take_zero, List.append_nil, List.length_nil, mk.injEq, true_and]
    omega

/-- **Writing pieces is writing their concatenation once.** -/
theorem putAll_eq (c : Cursor) (pieces : List (List Char)) :
    c.putAll pieces = c.put pieces.flatten := by
  induction pieces generalizing c with
  | nil => simp [put, advance, scnprintf]
  | cons piece pieces ih => rw [putAll_cons, ih, put_put, List.flatten_cons]

end Cursor

end BoundedText
