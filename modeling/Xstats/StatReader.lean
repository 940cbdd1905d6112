/-
**What a reader of haswellstat, sbstat and micstat gets** (`print_buffer`, `micstat_show_stat`).

A reader keeps the texts of all its stat reads. Their `print_buffer` puts a comma behind every number, the
last one too, so that no line is a JSON text; taking this comma out of each line gives back the samples,
word for word, and these are samples that were taken, each once and in order.

* `Layout.Complete` for the three tables: `complete_statLayout`, `complete_micLayout`.
* `runRing_sublist`: what a run of reads printed of the ring of haswellstat and micstat.
* `stat_texts_read_back`: the texts of a run of reads.
-/

import Xstats.Haswellstat.RingsAgree
import Xstats.Lib.LabelledWords
import Xstats.Micstat.StatText
import Xstats.Sbstat.Lossless

namespace Xstats

open BitFields FlatJson Haswellstat LabelledWords PageReader RingBuffer

/-! ### The lines -/

/-- The whole of a word. -/
def wholeWord : Field := ⟨0, 64⟩

theorem get_wholeWord (word : BitVec 64) : wholeWord.get word = word.toNat := by
  show (word.toNat >>> 0) % 2 ^ 64 = word.toNat
  exact Nat.mod_eq_of_lt word.isLt

/-- haswellstat and sbstat show every word under the name of its counter. -/
def statLayout : Layout statCounters.length := fun i => [((statCounters.get i).name.toList, wholeWord)]

/-- micstat shows the members of the unions in place of their words. -/
def micLayout : Layout micCounters.length := fun i =>
  match Micstat.micScnprintf (micCounters.get i) with
  | some packed => packed.members.map fun m => (m.name.toList, m.field)
  | none => [((micCounters.get i).name.toList, wholeWord)]

theorem complete_statLayout : statLayout.Complete 64 where
  distinct := by decide +kernel
  clean := by
    have all : statLayout.labels.all (fun label => label.all unescaped) = true := by decide
    simpa only [List.all_eq_true] using all
  some := by decide +kernel
  fits := by decide +kernel
  apart := by decide +kernel
  covered := by decide +kernel

theorem complete_micLayout : micLayout.Complete 64 where
  distinct := by decide +kernel
  clean := by
    have all : micLayout.labels.all (fun label => label.all unescaped) = true := by decide
    simpa only [List.all_eq_true] using all
  some := by decide +kernel
  fits := by decide +kernel
  apart := by decide +kernel
  covered := by decide +kernel

theorem namedText_eq (name : String) (n : Nat) :
    Micstat.namedText name n = renderMember (name.toList, (n : Int)) ++ [','] := by
  simp [Micstat.namedText, renderMember, Decimal.signed_natCast]

/-- The line of haswellstat and sbstat. -/
theorem statLine_eq (buf : StatRecord) : Haswellstat.recordLine buf = statLayout.looseLine buf := by
  have each : ∀ i, counterText buf i = (statLayout i).flatMap fun x =>
      renderMember (x.1, (x.2.get (buf i) : Int)) ++ [','] := by
    intro i
    rw [statLayout, List.flatMap_singleton, get_wholeWord, ← namedText_eq]
    rfl
  rw [Layout.looseLine_eq, Haswellstat.recordLine, ← List.flatMap_def, funext each]

/-- The line of micstat. -/
theorem micLine_eq (buf : Micstat.MicRecord) : Micstat.recordLine buf = micLayout.looseLine buf := by
  have each : ∀ i, Micstat.counterText i (buf i) = (micLayout i).flatMap fun x =>
      renderMember (x.1, (x.2.get (buf i) : Int)) ++ [','] := by
    intro i
    unfold Micstat.counterText micLayout
    cases Micstat.micScnprintf (micCounters.get i) with
    | none => rw [List.flatMap_singleton, get_wholeWord, ← namedText_eq]
    | some packed =>
      rw [List.flatMap_map]
      exact List.flatMap_congr fun m _ => namedText_eq m.name _
  rw [Layout.looseLine_eq, Micstat.recordLine]
  simp only [each]

/-! ### Runs of haswellstat and micstat -/

section Runs

variable {α : Type} {N : Nat} (print : Int → α → Option (List Char)) {r : Buffer α}

/-- The records an operation printed, with their texts. -/
def printed : RingOut α → List (α × List Char)
  | .stat out => out
  | _ => []

/-- The sample of an operation that is a roll. -/
def rolled : RingOp α → List α
  | .rollBuffer sample => [sample]
  | _ => []

/-- **One operation.** What was printed and what is pending are among the samples, in order. -/
theorem micstatStep_sublist (indexed : r.WellIndexed N) {before samples : List α}
    (sublist : (before ++ r.contents N).Sublist samples) (op : RingOp α) :
    (micstatStep N print r op).1.WellIndexed N ∧
      (before ++ (printed (micstatStep N print r op).2).map Prod.fst ++
        (micstatStep N print r op).1.contents N).Sublist (samples ++ rolled op) := by
  have silent : ∀ left : Buffer α, (before ++ left.contents N).Sublist samples →
      (before ++ [] ++ left.contents N).Sublist (samples ++ []) := by
    intro left kept
    simpa using kept
  cases op with
  | rollBuffer sample =>
    show (Ring.rollBuffer N r sample).WellIndexed N ∧
      (before ++ [] ++ (Ring.rollBuffer N r sample).contents N).Sublist (samples ++ [sample])
    rw [Ring.rollBuffer_eq_push, List.append_nil]
    exact ⟨indexed.push sample, Buffer.contents_push_sublist indexed sublist sample⟩
  | clear buf =>
    show (Ring.storeClear r buf.val).WellIndexed N ∧
      (before ++ [] ++ (Ring.storeClear r buf.val).contents N).Sublist (samples ++ [])
    rw [Ring.storeClear_of_clears buf.property]
    refine ⟨indexed.retreat, silent _ ?_⟩
    rw [Buffer.contents_retreat, List.append_nil]
    exact (List.sublist_append_left _ _).trans sublist
  | showStat =>
    obtain ⟨after, split⟩ := Haswellstat.Ring.showStat_split print indexed
    refine ⟨after, ?_⟩
    show (before ++ (Ring.showStat N print r).2.map Prod.fst ++
      (Ring.showStat N print r).1.contents N).Sublist (samples ++ [])
    rwa [List.append_assoc, split, List.append_nil]
  | showLast => exact ⟨indexed, silent r sublist⟩

/-- **A run.** -/
theorem runRing_sublist (indexed : r.WellIndexed N) {before samples : List α}
    (sublist : (before ++ r.contents N).Sublist samples) (ops : List (RingOp α)) :
    (before ++ ((runRing (micstatStep N print) r ops).2.flatMap printed).map Prod.fst ++
      (runRing (micstatStep N print) r ops).1.contents N).Sublist (samples ++ ops.flatMap rolled) := by
  induction ops generalizing r before samples with
  | nil => simpa [runRing] using sublist
  | cons op rest ih =>
    obtain ⟨next, kept⟩ := micstatStep_sublist print indexed sublist op
    have others := ih next kept
    simpa [runRing, List.append_assoc] using others

/-- Where lines are printed whole as long as half of the page is left, all texts are lines. -/
theorem printed_whole {line : α → List Char}
    (whole : ∀ limit : Int, limit > pageSize / 2 → ∀ x, print limit x = some (line x))
    (ops : List (RingOp α)) :
    ∀ y ∈ (runRing (micstatStep N print) r ops).2.flatMap printed, y.2 = line y.1 := by
  induction ops generalizing r with
  | nil => exact fun _ member => by cases member
  | cons op rest ih =>
    intro y member
    change y ∈ (_ :: _).flatMap printed at member
    rw [List.flatMap_cons, List.mem_append] at member
    rcases member with here | later
    · cases op with
      | showStat => exact drainLoop_whole whole y here
      | rollBuffer | clear | showLast => cases here
    · exact ih y later

end Runs

/-! ### The texts of a run -/

/-- A line that is no JSON text as it stands, but without its last comma the object of these members. -/
structure LooseLine (line : List Char) (ms : List Member) : Prop where
  not_text : ¬ Json.Text line
  line_eq : ∃ front, line = front ++ [',', '}', '\n'] ∧ '\n' ∉ front ∧ Object (front ++ ['}']) ms ∧
    Json.Text (front ++ ['}']) ∧ parseLoose (front ++ [',', '}']) = some ms
  keys_nodup : (ms.map Prod.fst).Nodup

theorem looseLine_of_complete {n w : Nat} {layout : Layout n} (complete : layout.Complete w)
    (record : Fin n → BitVec w) : LooseLine (layout.looseLine record) (layout.members record) := by
  have some := Layout.members_ne_nil complete record
  have clean := Layout.clean_members complete record
  have split := renderLoose_eq some
  have object := object_renderLoose some clean
  have ends : Json.White ['\n'] := fun c member => by cases List.mem_singleton.mp member; rfl
  constructor
  case not_text => exact not_text_renderLoose some ends
  case line_eq =>
    refine ⟨'{' :: renderMembers (layout.members record), ?_, fun member => ?_, object,
      Json.text_of_object object, ?_⟩
    · rw [Layout.looseLine, split]
      simp
    · exact newline_not_mem_renderLoose some clean (split ▸ List.mem_append_left _ member)
    · rw [← split]
      exact parseLoose_renderLoose some clean
  case keys_nodup =>
    rw [Layout.keys_members]
    exact complete.distinct

/-- The texts of stat reads read back, where lines are printed whole. -/
theorem readRecords_printed {n : Nat} {layout : Layout n} (complete : layout.Complete 64)
    {outs : List ((Fin n → BitVec 64) × List Char)}
    (whole : ∀ y ∈ outs, y.2 = layout.looseLine y.1) :
    layout.readRecords 64 (outs.flatMap Prod.snd) = some (outs.map Prod.fst) := by
  have lines : outs.flatMap Prod.snd = (outs.map Prod.fst).flatMap layout.looseLine := by
    rw [List.flatMap_map]
    exact List.flatMap_congr whole
  rw [lines]
  exact Layout.readRecords_lines complete _

/-- What is to hold of a module with the ring of haswellstat: a reader of all its stat texts gets samples
that were taken, each once and in order, and so are those still pending. -/
def ReadsBack {n : Nat} (layout : Layout n) (print : Int → (Fin n → BitVec 64) → Option (List Char)) :
    Prop :=
  ∀ (slots : Nat → Fin n → BitVec 64) (ops : List (RingOp (Fin n → BitVec 64))),
    let run := runRing (micstatStep micstatNbuf print) (emptyRing slots) ops
    let outs := run.2.flatMap printed
    layout.readRecords 64 (outs.flatMap Prod.snd) = some (outs.map Prod.fst) ∧
      (outs.map Prod.fst ++ run.1.contents micstatNbuf).Sublist (ops.flatMap rolled)

theorem readsBack_of_complete {n : Nat} {layout : Layout n} (complete : layout.Complete 64)
    {print : Int → (Fin n → BitVec 64) → Option (List Char)}
    (whole : ∀ limit : Int, limit > pageSize / 2 → ∀ x, print limit x = some (layout.looseLine x)) :
    ReadsBack layout print := by
  intro slots ops
  have start : (emptyRing slots).WellIndexed micstatNbuf := Ring.wellIndexed_emptyRing (by decide) slots
  have nothing : ([] ++ (emptyRing slots).contents micstatNbuf).Sublist [] := List.Sublist.refl _
  exact ⟨readRecords_printed complete (printed_whole print whole ops),
    runRing_sublist print start nothing ops⟩

theorem printBuffer_stat (limit : Int) (wide : limit > pageSize / 2) (buf : StatRecord) :
    Haswellstat.printBuffer limit buf = some (statLayout.looseLine buf) := by
  rw [Haswellstat.printBuffer_eq (lt_trans (by decide) wide), statLine_eq]

theorem printBuffer_mic (limit : Int) (wide : limit > pageSize / 2) (buf : Micstat.MicRecord) :
    Micstat.printBuffer limit buf = some (micLayout.looseLine buf) := by
  rw [Micstat.printBuffer_eq (lt_trans (by decide) wide), micLine_eq]

/-- **The stat texts of haswellstat, sbstat and micstat.** None of their lines is a JSON text, for the
comma before its closing brace, and without it each is an object with distinct keys. Over every run of
rolls, clears and reads from the empty ring, a reader that takes the comma out of each line gets from all
the texts the records that were printed, word for word: samples that were taken, each once and in order,
and in sbstat, with those still pending, all that were accepted. -/
theorem stat_texts_read_back :
    (∀ buf, LooseLine (Haswellstat.recordLine buf) (statLayout.members buf)) ∧
    (∀ buf, LooseLine (Micstat.recordLine buf) (micLayout.members buf)) ∧
    ReadsBack statLayout Haswellstat.printBuffer ∧ ReadsBack micLayout Micstat.printBuffer ∧
    ∀ (slots : Nat → StatRecord) (ops : List (Sbstat.StatOp StatRecord)),
      let run := Sbstat.runStat (Sbstat.statStep micstatNbuf Haswellstat.printBuffer) (emptyRing slots) ops
      let outs := run.2.flatMap Sbstat.StatOut.printed
      ∃ records, statLayout.readRecords 64 (outs.flatMap Prod.snd) = some records ∧
        records ++ run.1.contents micstatNbuf =
          Sbstat.accepted micstatNbuf Haswellstat.printBuffer (emptyRing slots) ops := by
  refine ⟨fun buf => ?_, fun buf => ?_, readsBack_of_complete complete_statLayout printBuffer_stat,
    readsBack_of_complete complete_micLayout printBuffer_mic, fun slots ops => ?_⟩
  · rw [statLine_eq]
    exact looseLine_of_complete complete_statLayout buf
  · rw [micLine_eq]
    exact looseLine_of_complete complete_micLayout buf
  · have start : (emptyRing slots).WellIndexed micstatNbuf :=
      Ring.wellIndexed_emptyRing (by decide) slots
    obtain ⟨_, ledger⟩ := Sbstat.runStat_ledger Haswellstat.printBuffer start ops
    refine ⟨_, readRecords_printed complete_statLayout fun y member => ?_, ledger⟩
    rw [Sbstat.printed_text ops member, statLine_eq]

end Xstats
