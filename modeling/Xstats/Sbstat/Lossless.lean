/-
**sbstat keeps what it has buffered.**

sbstat's `roll_buffer` writes only where a slot is free and otherwise fails, so that a sample is lost
before it is buffered or not at all. Its reader is the one of haswellstat, whose writer overwrites.

* `statStep_ledger`: an operation moves the samples it prints out of the pending ones and adds the one
  it accepts.
* `buffered_samples_kept`: over every run, what was printed and what is pending are the samples
  accepted, in order, and the run is one of haswellstat's until a roll finds the ring full.
-/

import Xstats.Haswellstat.Ring

namespace Xstats.Sbstat

open Haswellstat PageReader RingBuffer

namespace Ring

variable {α : Type} (N : Nat)

/-- The critical section of `roll_buffer`, and what it returns. -/
def rollBuffer (r : Buffer α) (sample : α) : Buffer α × Int :=
  if r.size < N then
    let r := { r with slots := Function.update r.slots r.next sample }
    let r := { r with next := (r.next + 1) % N }
    ({ r with size := r.size + 1 }, 0)
  else (r, -1)

variable {N} {r : Buffer α}

theorem rollBuffer_of_lt (room : r.size < N) (sample : α) :
    rollBuffer N r sample = (r.push N sample, 0) := by
  simp [rollBuffer, Buffer.push, room]

theorem rollBuffer_of_full (full : ¬r.size < N) (sample : α) : rollBuffer N r sample = (r, -1) :=
  if_neg full

theorem rollBuffer_eq_offer (sample : α) : (rollBuffer N r sample).1 = r.offer N sample := by
  unfold Buffer.offer
  by_cases room : r.size < N
  · rw [rollBuffer_of_lt room, if_pos room]
  · rw [rollBuffer_of_full room, if_neg room]

end Ring

/-! ### Operations -/

/-- What can happen to the ring. -/
inductive StatOp (α : Type)
  | rollBuffer (sample : α)
  | showStat

/-- What an operation gives out: what `roll_buffer` returned, or the records printed with their texts. -/
inductive StatOut (α : Type)
  | rolled (ret : Int)
  | stat (out : List (α × List Char))

section Operations

variable {α : Type} (N : Nat) (print : Int → α → Option (List Char))

/-- An operation on sbstat's ring. -/
def statStep (r : Buffer α) : StatOp α → Buffer α × StatOut α
  | .rollBuffer sample =>
    let (next, ret) := Ring.rollBuffer N r sample
    (next, .rolled ret)
  | .showStat =>
    let (left, out) := Haswellstat.Ring.showStat N print r
    (left, .stat out)

/-- The same operation on haswellstat's ring, whose `roll_buffer` always returns zero. -/
def haswellStep (r : Buffer α) : StatOp α → Buffer α × StatOut α
  | .rollBuffer sample => (Haswellstat.Ring.rollBuffer N r sample, .rolled 0)
  | .showStat =>
    let (left, out) := Haswellstat.Ring.showStat N print r
    (left, .stat out)

/-- The operations one after the other: the ring they leave, and what each gave out. -/
def runStat (step : Buffer α → StatOp α → Buffer α × StatOut α) (r : Buffer α) :
    List (StatOp α) → Buffer α × List (StatOut α)
  | [] => (r, [])
  | op :: rest =>
    let (next, out) := step r op
    let (left, outs) := runStat step next rest
    (left, out :: outs)

/-- The records an operation printed, with their texts. -/
def StatOut.printed : StatOut α → List (α × List Char)
  | .rolled _ => []
  | .stat out => out

/-- The sample of an operation that is a roll and finds less than `N` pending. -/
def accepts (r : Buffer α) : StatOp α → List α
  | .rollBuffer sample => if r.size < N then [sample] else []
  | .showStat => []

/-- The samples of a run whose roll found less than `N` pending, in the order taken. -/
def accepted (r : Buffer α) : List (StatOp α) → List α
  | [] => []
  | op :: rest => accepts N r op ++ accepted (statStep N print r op).1 rest

/-- How many operations come before the first roll that finds the ring full. -/
def beforeFull (r : Buffer α) : List (StatOp α) → Nat
  | [] => 0
  | .rollBuffer sample :: rest =>
    if r.size < N then beforeFull (statStep N print r (.rollBuffer sample)).1 rest + 1 else 0
  | .showStat :: rest => beforeFull (statStep N print r .showStat).1 rest + 1

variable {N} {r : Buffer α}

/-- **One operation.** The samples printed leave the pending ones, the one accepted joins them. -/
theorem statStep_ledger (indexed : r.WellIndexed N) (op : StatOp α) :
    (statStep N print r op).1.WellIndexed N ∧
      (statStep N print r op).2.printed.map Prod.fst ++ (statStep N print r op).1.contents N =
        r.contents N ++ accepts N r op := by
  cases op with
  | rollBuffer sample =>
    change (Ring.rollBuffer N r sample).1.WellIndexed N ∧
      [] ++ (Ring.rollBuffer N r sample).1.contents N = _
    rw [Ring.rollBuffer_eq_offer]
    exact ⟨indexed.offer sample, Buffer.contents_offer indexed sample⟩
  | showStat =>
    obtain ⟨left, split⟩ := Haswellstat.Ring.showStat_split print indexed
    exact ⟨left, split.trans (List.append_nil _).symm⟩

theorem runStat_cons (step : Buffer α → StatOp α → Buffer α × StatOut α) (r : Buffer α)
    (op : StatOp α) (rest : List (StatOp α)) :
    runStat step r (op :: rest) =
      ((runStat step (step r op).1 rest).1, (step r op).2 :: (runStat step (step r op).1 rest).2) := rfl

/-- **All operations.** -/
theorem runStat_ledger (indexed : r.WellIndexed N) (ops : List (StatOp α)) :
    (runStat (statStep N print) r ops).1.WellIndexed N ∧
      ((runStat (statStep N print) r ops).2.flatMap StatOut.printed).map Prod.fst ++
        (runStat (statStep N print) r ops).1.contents N = r.contents N ++ accepted N print r ops := by
  induction ops generalizing r with
  | nil => exact ⟨indexed, (List.append_nil _).symm⟩
  | cons op rest ih =>
    obtain ⟨next, moved⟩ := statStep_ledger print indexed op
    obtain ⟨after, others⟩ := ih next
    refine ⟨after, ?_⟩
    calc ((runStat (statStep N print) r (op :: rest)).2.flatMap StatOut.printed).map Prod.fst ++
          (runStat (statStep N print) r (op :: rest)).1.contents N
        = (statStep N print r op).2.printed.map Prod.fst ++
          (((runStat (statStep N print) (statStep N print r op).1 rest).2.flatMap
              StatOut.printed).map Prod.fst ++
            (runStat (statStep N print) (statStep N print r op).1 rest).1.contents N) := by
          simp only [runStat_cons, List.flatMap_cons, List.map_append, List.append_assoc]
      _ = r.contents N ++ accepted N print r (op :: rest) := by
          rw [others, ← List.append_assoc, moved, List.append_assoc]
          rfl

/-- With room, both modules write alike. -/
theorem haswellStep_rollBuffer (room : r.size < N) (sample : α) :
    haswellStep N print r (.rollBuffer sample) = statStep N print r (.rollBuffer sample) := by
  simp only [haswellStep, statStep, Ring.rollBuffer_of_lt room, Haswellstat.Ring.rollBuffer_eq_push]

/-- **Both modules give out the same until a roll finds the ring full.** -/
theorem take_beforeFull (r : Buffer α) (ops : List (StatOp α)) :
    (runStat (haswellStep N print) r ops).2.take (beforeFull N print r ops) =
      (runStat (statStep N print) r ops).2.take (beforeFull N print r ops) := by
  induction ops generalizing r with
  | nil => rfl
  | cons op rest ih =>
    have same : haswellStep N print r op = statStep N print r op →
        (runStat (haswellStep N print) r (op :: rest)).2.take
            (beforeFull N print (statStep N print r op).1 rest + 1) =
          (runStat (statStep N print) r (op :: rest)).2.take
            (beforeFull N print (statStep N print r op).1 rest + 1) := fun alike => by
      rw [runStat_cons, runStat_cons, alike, List.take_succ_cons, List.take_succ_cons, ih]
    cases op with
    | rollBuffer sample =>
      by_cases room : r.size < N
      · rw [beforeFull, if_pos room]
        exact same (haswellStep_rollBuffer print room sample)
      · rw [beforeFull, if_neg room]
        rfl
    | showStat => exact same rfl

end Operations

/-- Every text of a run is the line of its record, whole. -/
theorem printed_text {N : Nat} {r : Buffer StatRecord} (ops : List (StatOp StatRecord))
    {entry : StatRecord × List Char}
    (printed : entry ∈ (runStat (statStep N printBuffer) r ops).2.flatMap StatOut.printed) :
    entry.2 = recordLine entry.1 := by
  induction ops generalizing r with
  | nil => cases printed
  | cons op rest ih =>
    rw [runStat_cons, List.flatMap_cons, List.mem_append] at printed
    rcases printed with here | later
    · cases op with
      | rollBuffer sample => cases here
      | showStat =>
        exact drainLoop_whole (fun limit wide => printBuffer_eq (lt_trans (by decide) wide)) entry here
    · exact ih later

/-- **sbstat never loses a buffered sample.** Over every run from the empty ring of 128 slots: the
indices hang together; the pending samples are those accepted and not yet printed, and with the printed
ones, which came out as whole lines, they are all samples whose roll found less than 128 pending, in
the order taken; a roll on the full ring changes nothing, and a read prints a sample if one is pending.
Until a roll finds the ring full, haswellstat's ring gives out the same. -/
theorem buffered_samples_kept (slots : Nat → StatRecord) (ops : List (StatOp StatRecord)) :
    let run := runStat (statStep micstatNbuf printBuffer) (emptyRing slots) ops
    let printed := run.2.flatMap StatOut.printed
    let taken := accepted micstatNbuf printBuffer (emptyRing slots) ops
    let agreed := beforeFull micstatNbuf printBuffer (emptyRing slots) ops
    run.1.WellIndexed micstatNbuf ∧
      run.1.contents micstatNbuf = taken.drop printed.length ∧
      printed.map Prod.fst ++ run.1.contents micstatNbuf = taken ∧
      (∀ entry ∈ printed, entry.2 = recordLine entry.1) ∧
      (run.1.size = micstatNbuf →
        ∀ sample, Ring.rollBuffer micstatNbuf run.1 sample = (run.1, -1)) ∧
      (run.1.contents micstatNbuf ≠ [] →
        (statStep micstatNbuf printBuffer run.1 .showStat).2.printed ≠ []) ∧
      (runStat (haswellStep micstatNbuf printBuffer) (emptyRing slots) ops).2.take agreed =
        run.2.take agreed := by
  intro run printed taken agreed
  have start : (emptyRing slots).WellIndexed micstatNbuf :=
    Haswellstat.Ring.wellIndexed_emptyRing (by decide) slots
  obtain ⟨indexed, moved⟩ := runStat_ledger printBuffer start ops
  have ledger : printed.map Prod.fst ++ run.1.contents micstatNbuf = taken := moved
  refine ⟨indexed, ?_, ledger, fun entry => printed_text ops, fun full sample => ?_,
    fun some => ?_, take_beforeFull _ _ _⟩
  · rw [← ledger, List.drop_left' (List.length_map _)]
  · exact Ring.rollBuffer_of_full (by omega) sample
  · refine Haswellstat.Ring.showStat_ne_nil indexed (fun buf => ?_) some
    rw [printBuffer_eq (by decide)]
    rfl

end Xstats.Sbstat
