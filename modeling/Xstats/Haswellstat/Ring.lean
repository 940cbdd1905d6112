/-
**The ring of haswellstat, sbstat and micstat.**

haswellstat and micstat have the same ring; sbstat differs in one point: where the ring is full its
`roll_buffer` writes nothing and fails. A clear empties the ring by setting `buffer_next` back to
`buffer_base`. Capacity, records and the record printer are parameters here. A printer that returns
no text has returned a negative number; one that returns a text has written less than the limit it was
given, so that the limit of a reader stays positive and its comparison with the unsigned
`PAGE_SIZE / 2` is the one of the integers.

* `rollBuffer_eq_push`, `storeClear_of_clears`, `showStat_eq`, `showLast_eq`: what the operations do
  to the ring's contents.
* `showStat_split`, `showStat_ne_nil`: a stat read takes what it prints from the front of what is pending,
  and it prints a sample if one is.
* `printBuffer_eq`: the record printer of haswellstat and sbstat writes its line whole.
-/

import Xstats.Haswellstat.Counters
import Xstats.Lib.BoundedText
import Xstats.Lib.Decimal
import Xstats.Lib.PageReader

namespace Xstats.Haswellstat

open BoundedText PageReader RingBuffer

/-- `PAGE_SIZE`, an attribute's buffer. -/
abbrev pageSize : Nat := 4096

/-- `MICSTAT_NBUF`. -/
abbrev micstatNbuf : Nat := 128

/-- The ring that `micstat_init` leaves, whatever the slots hold. -/
def emptyRing {α : Type} (slots : Nat → α) : Buffer α := ⟨slots, 0, 0, 0⟩

namespace Ring

variable {α : Type} (N : Nat) (print : Int → α → Option (List Char))

/-- The critical section of `roll_buffer`. -/
def rollBuffer (r : Buffer α) (sample : α) : Buffer α :=
  let r := { r with slots := Function.update r.slots r.next sample }
  let r := { r with next := (r.next + 1) % N }
  if r.size < N then { r with size := r.size + 1 } else { r with base := (r.base + 1) % N }

/-- The test that `micstat_store_clear` makes of the `count` characters written. -/
def clears (buf : List Char) : Bool := "on".toList.isPrefixOf buf || "1".toList.isPrefixOf buf

/-- `micstat_store_clear`. -/
def storeClear (r : Buffer α) (buf : List Char) : Buffer α :=
  if clears buf then { r with size := 0, next := r.base } else r

/-- `micstat_show_stat`: the ring it leaves, and the records it printed with their texts. -/
def showStat (r : Buffer α) : Buffer α × List (α × List Char) :=
  drainLoop N print (pageSize / 2) r.size pageSize r

/-- `micstat_show_last`: what it printed. -/
def showLast (r : Buffer α) : Option (List Char) :=
  if r.size > 0 then print pageSize (r.slots ((r.base + r.size - 1) % N)) else some []

variable {N} {print} {r : Buffer α}

theorem wellIndexed_emptyRing (positive : 0 < N) (slots : Nat → α) :
    (emptyRing slots).WellIndexed N :=
  ⟨positive, positive, Nat.zero_le _, (Nat.zero_mod N).symm⟩

theorem rollBuffer_eq_push (sample : α) : rollBuffer N r sample = r.push N sample := by
  by_cases room : r.size < N <;> simp [rollBuffer, Buffer.push, room]

theorem storeClear_of_clears {buf : List Char} (accepted : clears buf = true) :
    storeClear r buf = r.retreat := if_pos accepted

theorem showStat_eq (indexed : r.WellIndexed N) :
    showStat N print r =
      (r.drop N (fill print (pageSize / 2) pageSize (r.contents N)).length,
        fill print (pageSize / 2) pageSize (r.contents N)) :=
  drainLoop_eq indexed le_rfl _

/-- A stat read takes what it prints from the front of what is pending. -/
theorem showStat_split (print : Int → α → Option (List Char)) (indexed : r.WellIndexed N) :
    (showStat N print r).1.WellIndexed N ∧
      (showStat N print r).2.map Prod.fst ++ (showStat N print r).1.contents N = r.contents N := by
  obtain ⟨rest, split⟩ := fill_starts_pending print (pageSize / 2) pageSize (r.contents N)
  have count := length_fill_le print (pageSize / 2) pageSize (r.contents N)
  have left :
      (r.contents N).drop (fill print (pageSize / 2) pageSize (r.contents N)).length = rest := by
    conv_lhs => arg 2; rw [← split]
    exact List.drop_left' (List.length_map _)
  rw [showStat_eq indexed, Buffer.contents_drop, left, split]
  exact ⟨indexed.drop (by simpa using count), rfl⟩

/-- A stat read prints a sample if one is pending. -/
theorem showStat_ne_nil (indexed : r.WellIndexed N) (prints : ∀ x, (print pageSize x).isSome)
    (some : r.contents N ≠ []) : (showStat N print r).2 ≠ [] := by
  rw [showStat_eq indexed]
  exact fill_ne_nil (by decide) prints some

/-- The last attribute shows the newest pending record. -/
theorem showLast_eq (r : Buffer α) :
    showLast N print r = match (r.contents N).getLast? with
      | some sample => print pageSize sample
      | none => some [] := by
  unfold showLast
  by_cases some : 0 < r.size
  · rw [if_pos some, Buffer.newest_eq some]
    rfl
  · have empty : r.contents N = [] := List.eq_nil_of_length_eq_zero (by simp; omega)
    rw [if_neg some, empty]
    rfl

end Ring

/-! ### The records of haswellstat and sbstat -/

/-- One sample: a word for each counter of the table. -/
abbrev StatRecord := Fin statCounters.length → Word

/-- One iteration of the loop in `print_buffer`. -/
def printCounter (buf : StatRecord) (cursor : Cursor) (i : Fin statCounters.length) : Cursor :=
  cursor.put ('"' :: (statCounters.get i).name.toList ++
    ('"' :: ':' :: Decimal.natural (buf i).toNat ++ [',']))

/-- `print_buffer`: the characters written. `scnprintf` returns no negative number. -/
def printBuffer (limit : Int) (buf : StatRecord) : Option (List Char) :=
  let cursor := (Cursor.start limit).put ['{']
  let cursor := (List.finRange statCounters.length).foldl (printCounter buf) cursor
  some (cursor.put ['}', '\n']).text

/-- The characters of one counter. -/
def counterText (buf : StatRecord) (i : Fin statCounters.length) : List Char :=
  '"' :: (statCounters.get i).name.toList ++ ('"' :: ':' :: Decimal.natural (buf i).toNat ++ [','])

/-- The line of a record. -/
def recordLine (buf : StatRecord) : List Char :=
  '{' :: ((List.finRange statCounters.length).map (counterText buf)).flatten ++ ['}', '\n']

theorem foldl_printCounter (buf : StatRecord) (counters : List (Fin statCounters.length))
    (cursor : Cursor) :
    counters.foldl (printCounter buf) cursor = cursor.putAll (counters.map (counterText buf)) := by
  induction counters generalizing cursor with
  | nil => rfl
  | cons i rest ih => exact ih _

/-- The text of a record is its line, cut only by the limit. -/
theorem printBuffer_eq_scnprintf (limit : Int) (buf : StatRecord) :
    printBuffer limit buf = some (scnprintf limit (recordLine buf)) := by
  have written : (((Cursor.start limit).put ['{']).putAll
        ((List.finRange statCounters.length).map (counterText buf))).put ['}', '\n']
      = (Cursor.start limit).put (recordLine buf) := by
    rw [Cursor.putAll_eq, Cursor.put_put, Cursor.put_put]
    rfl
  simp only [printBuffer, foldl_printCounter, written]
  rfl

/-- A bound for the length of every line, far below half a page. -/
def recordLimit : Nat := 512

theorem length_counterText_le (buf : StatRecord) (i : Fin statCounters.length) :
    (counterText buf i).length ≤ (statCounters.get i).name.toList.length + 24 := by
  have digits : (Decimal.natural (buf i).toNat).length ≤ 20 :=
    Decimal.length_natural_le (by decide) ((buf i).isLt.trans (by decide))
  simp only [counterText, List.length_append, List.length_cons, List.length_nil]
  omega

theorem length_recordLine_le (buf : StatRecord) : (recordLine buf).length ≤ recordLimit := by
  have fields : ((List.finRange statCounters.length).map fun i => (counterText buf i).length).sum ≤
      ((List.finRange statCounters.length).map fun i =>
        (statCounters.get i).name.toList.length + 24).sum :=
    List.sum_le_sum fun i _ => length_counterText_le buf i
  have total : ((List.finRange statCounters.length).map fun i =>
      (statCounters.get i).name.toList.length + 24).sum + 3 ≤ recordLimit := by decide
  simp only [recordLine, List.length_append, List.length_cons, List.length_nil, List.length_flatten,
    List.map_map, Function.comp_def]
  omega

/-- With room for the longest line nothing is cut. -/
theorem printBuffer_eq {limit : Int} (room : recordLimit < limit) (buf : StatRecord) :
    printBuffer limit buf = some (recordLine buf) := by
  have short := length_recordLine_le buf
  rw [printBuffer_eq_scnprintf, scnprintf_of_fits (by omega)]

end Xstats.Haswellstat
