/-
**The text of micstat** (`print_buffer`, `micstat_show_stat`).

Three of the twenty-three counters have a formatter of their own, which prints seven or eight fields of
its word; the others print their word under their name. Half a page is far more than the longest record
needs, and the text of some records tells what they were, word for word.

* `delimited_packed`: the fields a formatter prints cover its word.
* `length_recordLine_le`: no record is longer than a bound that is below half a page.
* `stat_text`: a read prints whole records, less than a page of them, and different records print
  differently.
-/

import Xstats.Haswellstat.Ring
import Xstats.Lib.Delimited
import Xstats.Micstat.Sensors

namespace Xstats.Micstat

open BitFields BoundedText Delimiting Haswellstat PageReader RingBuffer

/-! ### Printing -/

/-- One sample: a word for each counter of the table. -/
abbrev MicRecord := Fin micCounters.length → Word

/-- The field `scnprintf` of the counters of micstat. -/
def micScnprintf (counter : MicstatCounter) : Option Packed :=
  match counter.restart with
  | .tempRestart => some .temp
  | .temp2Restart => some .temp2
  | .powerRestart => some .power
  | _ => none

/-- One iteration of the loop in `print_buffer`. -/
def printCounter (buf : MicRecord) (cursor : Cursor) (i : Fin micCounters.length) : Cursor :=
  match micScnprintf (micCounters.get i) with
  | some packed => cursor.advance (packed.scnprintf cursor.limit (buf i))
  | none => cursor.put (namedText (micCounters.get i).name (buf i).toNat)

/-- `print_buffer`: the characters written. Neither `scnprintf` nor a formatter returns a negative
number. -/
def printBuffer (limit : Int) (buf : MicRecord) : Option (List Char) :=
  let cursor := (Cursor.start limit).put ['{']
  let cursor := (List.finRange micCounters.length).foldl (printCounter buf) cursor
  some (cursor.put ['}', '\n']).text

/-! ### The line of a record -/

/-- The members a formatter prints. -/
def Packed.members : Packed → List UnionMember
  | temp => [tfin, tvccp, tgddr, tvddq, tvddg, tdie, tfout, tdie0]
  | temp2 => [tdie1, tdie2, tdie3, tdie4, tdie5, tdie6, tdie7, tdie8]
  | power => [avgpwr, pciepwr, c2x3pwr, c2x4pwr, vccppwr, vddgpwr, vddqpwr]

theorem Packed.scnprintf_eq (packed : Packed) (limit : Int) (data : Word) :
    packed.scnprintf limit data =
      BoundedText.scnprintf limit (packed.members.flatMap (memberText data)) := by
  rw [List.flatMap_def]
  cases packed <;> exact printMembers_eq _ limit data

/-- The characters of one counter. -/
def counterText (i : Fin micCounters.length) (data : Word) : List Char :=
  match micScnprintf (micCounters.get i) with
  | some packed => packed.members.flatMap (memberText data)
  | none => namedText (micCounters.get i).name data.toNat

/-- The line of a record. -/
def recordLine (buf : MicRecord) : List Char :=
  '{' :: ((List.finRange micCounters.length).flatMap fun i => counterText i (buf i)) ++ ['}', '\n']

theorem printCounter_eq (buf : MicRecord) (cursor : Cursor) (i : Fin micCounters.length) :
    printCounter buf cursor i = cursor.put (counterText i (buf i)) := by
  unfold printCounter counterText
  split
  · rename_i packed _
    rw [packed.scnprintf_eq]
    rfl
  · rfl

/-- The text of a record is its line, cut only by the limit. -/
theorem printBuffer_eq_scnprintf (limit : Int) (buf : MicRecord) :
    printBuffer limit buf = some (BoundedText.scnprintf limit (recordLine buf)) := by
  have pieces : ∀ cursor : Cursor, (List.finRange micCounters.length).foldl (printCounter buf) cursor =
      cursor.putAll ((List.finRange micCounters.length).map fun i => counterText i (buf i)) := by
    intro cursor
    rw [Cursor.putAll, List.foldl_map]
    exact congrArg (fun f => List.foldl f cursor _) (funext₂ (printCounter_eq buf))
  simp only [printBuffer, pieces]
  rw [Cursor.putAll_eq, Cursor.put_put, Cursor.put_put, ← List.flatMap_def]
  rfl

/-! ### Its length -/

/-- A bound for the length of every line, below half a page. -/
def recordLimit : Nat := 1536

theorem length_namedText_le (name : String) {n : Nat} (word : n < 2 ^ 64) :
    (namedText name n).length ≤ name.toList.length + 24 := by
  have digits : (Decimal.natural n).length ≤ 20 :=
    Decimal.length_natural_le (by decide) (word.trans (by decide))
  simp only [namedText, List.length_append, List.length_cons, List.length_nil]
  omega

/-- What the characters of a counter can come to. -/
def counterLimit (i : Fin micCounters.length) : Nat :=
  match micScnprintf (micCounters.get i) with
  | some packed => (packed.members.map fun m => m.name.toList.length + 24).sum
  | none => (micCounters.get i).name.toList.length + 24

theorem length_counterText_le (i : Fin micCounters.length) (data : Word) :
    (counterText i data).length ≤ counterLimit i := by
  unfold counterText counterLimit
  split
  · rw [List.length_flatMap]
    exact List.sum_le_sum fun m _ =>
      length_namedText_le m.name ((m.field.get_le data).trans_lt data.isLt)
  · exact length_namedText_le _ data.isLt

theorem length_recordLine_le (buf : MicRecord) : (recordLine buf).length ≤ recordLimit := by
  have fields : ((List.finRange micCounters.length).map fun i => (counterText i (buf i)).length).sum ≤
      ((List.finRange micCounters.length).map counterLimit).sum :=
    List.sum_le_sum fun i _ => length_counterText_le i (buf i)
  have total : ((List.finRange micCounters.length).map counterLimit).sum + 3 ≤ recordLimit := by
    decide +kernel
  simp only [recordLine, List.length_append, List.length_cons, List.length_nil, List.length_flatMap]
  omega

/-- With room for the longest line nothing is cut. -/
theorem printBuffer_eq {limit : Int} (room : recordLimit < limit) (buf : MicRecord) :
    printBuffer limit buf = some (recordLine buf) := by
  have short := length_recordLine_le buf
  rw [printBuffer_eq_scnprintf, scnprintf_of_fits (by omega)]

/-! ### Reading it back -/

theorem delimited_namedText (name : String) : Delimited (namedText name) := by
  have shape : namedText name =
      fun n => ('"' :: name.toList ++ ['"', ':']) ++ (Decimal.natural n ++ [',']) := by
    funext n
    simp [namedText]
  rw [shape]
  exact (delimited_natural (by decide)).prefixed _

/-- **A formatter prints its whole word.** -/
theorem delimited_packed (packed : Packed) :
    Delimited fun data : Word => packed.members.flatMap (memberText data) := by
  intro first second rest rest' same
  have covered : ∀ i < 64, ∃ f ∈ packed.members.map UnionMember.field, f.Has i := by
    cases packed <;> decide
  have members : ∀ m ∈ packed.members, Delimited (namedText m.name) :=
    fun m _ => delimited_namedText m.name
  obtain ⟨values, behind⟩ := flatMap_append_inj members same
  refine ⟨Field.eq_of_get_eq covered fun f member => ?_, behind⟩
  obtain ⟨m, inside, rfl⟩ := List.mem_map.mp member
  exact values m inside

theorem delimited_counterText (i : Fin micCounters.length) : Delimited (counterText i) := by
  unfold counterText
  split
  · exact delimited_packed _
  · exact (delimited_namedText _).comp fun _ _ => BitVec.eq_of_toNat_eq

theorem delimited_recordLine : Delimited recordLine := by
  have fields : Delimited fun buf : MicRecord =>
      (List.finRange micCounters.length).flatMap fun i => counterText i (buf i) := by
    intro first second rest rest' same
    obtain ⟨values, behind⟩ := flatMap_append_inj (fun i _ => delimited_counterText i) same
    exact ⟨funext fun i => values i (List.mem_finRange i), behind⟩
  exact (fields.prefixed ['{']).suffixed ['}', '\n']

/-! ### The stat attribute -/

/-- The samples that `micstat_show_stat` prints. -/
def statSamples (N : Nat) (r : Buffer MicRecord) : List MicRecord :=
  (Ring.showStat N printBuffer r).2.map Prod.fst

/-- The characters that `micstat_show_stat` writes. -/
def statText (N : Nat) (r : Buffer MicRecord) : List Char :=
  (Ring.showStat N printBuffer r).2.flatMap Prod.snd

/-- The text is the lines of the samples, whole. -/
theorem statText_eq (N : Nat) (r : Buffer MicRecord) :
    statText N r = (statSamples N r).flatMap recordLine := by
  have whole : ∀ x ∈ (Ring.showStat N printBuffer r).2, x.2 = recordLine x.1 :=
    drainLoop_whole fun limit wide => printBuffer_eq (lt_trans (by decide) wide)
  rw [statText, statSamples, List.flatMap_map]
  exact List.flatMap_congr whole

/-- A read writes less than a page. -/
theorem length_statText_lt (N : Nat) (r : Buffer MicRecord) : (statText N r).length < pageSize := by
  have within : ((statText N r).length : Int) < pageSize := by
    refine length_drainLoop_lt (fun limit wide buf text printed => ?_) (by decide)
    have short := length_recordLine_le buf
    have room : recordLimit < limit := lt_trans (by decide) wide
    rw [printBuffer_eq room] at printed
    cases printed
    omega
  exact_mod_cast within

/-- What a read prints are the first samples that the ring holds, at least one if it holds any. -/
theorem statSamples_prefix {N : Nat} {r : Buffer MicRecord} (indexed : r.WellIndexed N) :
    statSamples N r <+: r.contents N ∧ (r.contents N ≠ [] → statSamples N r ≠ []) := by
  obtain ⟨_, split⟩ := Ring.showStat_split printBuffer indexed
  refine ⟨⟨_, split⟩, fun some => ?_⟩
  rw [statSamples, ne_eq, List.map_eq_nil_iff]
  refine Ring.showStat_ne_nil indexed (fun buf => ?_) some
  rw [printBuffer_eq (by decide)]
  rfl

/-- **The stat text of micstat tells its samples.** With more than half a page left `print_buffer` prints
the line of a record whole. Whatever the ring holds, a read writes the lines of the samples it takes out,
each of them whole, and less than a page of characters; these samples are the first that the ring holds, at
least one if it holds any. Lists of samples whose lines are the same text are the same, word for word, so
that two reads that wrote the same reported the same. -/
theorem stat_text :
    (∀ (limit : Int) (buf : MicRecord), limit > pageSize / 2 →
      printBuffer limit buf = some (recordLine buf)) ∧
      (∀ N r, statText N r = (statSamples N r).flatMap recordLine ∧ (statText N r).length < pageSize) ∧
      (∀ N (r : Buffer MicRecord), r.WellIndexed N →
        statSamples N r <+: r.contents N ∧ (r.contents N ≠ [] → statSamples N r ≠ [])) ∧
      (Function.Injective fun samples : List MicRecord => samples.flatMap recordLine) ∧
      ∀ N r r', statText N r = statText N r' → statSamples N r = statSamples N r' := by
  have injective : Function.Injective fun samples : List MicRecord => samples.flatMap recordLine :=
    delimited_recordLine.flatMap_injective fun buf empty => by cases empty
  refine ⟨fun limit buf wide => printBuffer_eq (lt_trans (by decide) wide) buf,
    fun N r => ⟨statText_eq N r, length_statText_lt N r⟩, fun N r => statSamples_prefix, injective,
    fun N r r' same => ?_⟩
  rw [statText_eq, statText_eq] at same
  exact injective same

end Xstats.Micstat
