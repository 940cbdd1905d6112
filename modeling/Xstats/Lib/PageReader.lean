/-
**Readers that print a queue into a page.**

A reader prints pending values from the front while more than half of its page is left, and removes
what it printed. `fill` says this of the list of pending values, `drainLoop` is the loop that does it
to a ring. A printer is given what is left of the page; where it returns no text the reader stops.

* `drainLoop_eq`: the loop on a ring does what `fill` says of the ring's contents, so that rings with
  the same contents print the same.
* `fill_starts_pending`, `fill_ne_nil`: what is printed are the first of the pending values, at least one
  of them if any is pending.
* `mem_drainLoop`, `drainLoop_whole`, `length_drainLoop_lt`: what holds of every text it prints, and of
  all of them together.
-/

import Xstats.Lib.RingBuffer

namespace PageReader

open RingBuffer

variable {α : Type}

/-- What a reader with `limit` characters left prints of the pending values: the values and their
texts. -/
def fill (print : Int → α → Option (List Char)) (half : Int) : Int → List α → List (α × List Char)
  | _, [] => []
  | limit, x :: rest =>
    if limit > half then
      match print limit x with
      | none => []
      | some text => (x, text) :: fill print half (limit - text.length) rest
    else []

/-- The loop of a reader. Every pass takes a value out of the ring, so that `size` passes are enough. -/
def drainLoop (N : Nat) (print : Int → α → Option (List Char)) (half : Int) :
    Nat → Int → Buffer α → Buffer α × List (α × List Char)
  | 0, _, r => (r, [])
  | fuel + 1, limit, r =>
    if limit > half ∧ r.size > 0 then
      match print limit (r.slots r.base) with
      | none => (r, [])
      | some text =>
        let (left, out) := drainLoop N print half fuel (limit - text.length)
          { r with base := (r.base + 1) % N, size := r.size - 1 }
        (left, (r.slots r.base, text) :: out)
    else (r, [])

/-- The values printed are the first of those pending. -/
theorem fill_starts_pending (print : Int → α → Option (List Char)) (half limit : Int) (pending : List α) :
    (fill print half limit pending).map Prod.fst <+: pending := by
  induction pending generalizing limit with
  | nil => exact List.prefix_rfl
  | cons x rest ih =>
    rw [fill]
    split
    · split
      · exact List.nil_prefix
      · exact List.cons_prefix_cons.mpr ⟨rfl, ih _⟩
    · exact List.nil_prefix

theorem length_fill_le (print : Int → α → Option (List Char)) (half limit : Int) (pending : List α) :
    (fill print half limit pending).length ≤ pending.length := by
  simpa using (fill_starts_pending print half limit pending).length_le

/-- With more than half of its page left a reader prints something, if anything is pending. -/
theorem fill_ne_nil {print : Int → α → Option (List Char)} {half limit : Int} {pending : List α}
    (wide : limit > half) (prints : ∀ x, (print limit x).isSome) (some : pending ≠ []) :
    fill print half limit pending ≠ [] := by
  obtain ⟨x, rest, rfl⟩ := List.exists_cons_of_ne_nil some
  obtain ⟨text, printed⟩ := Option.isSome_iff_exists.mp (prints x)
  rw [fill, if_pos wide, printed]
  exact List.cons_ne_nil _ _

section Loop

variable {N : Nat} {print : Int → α → Option (List Char)} {half limit : Int} {fuel : Nat} {r : Buffer α}

/-- The loop ends where the page is half full or nothing is pending. -/
theorem drainLoop_of_not (ends : ¬(limit > half ∧ r.size > 0)) :
    drainLoop N print half fuel limit r = (r, []) := by
  cases fuel with
  | zero => rfl
  | succ fuel => exact if_neg ends

/-- The loop ends where the printer returns no text. -/
theorem drainLoop_of_none (none : print limit (r.slots r.base) = none) :
    drainLoop N print half fuel limit r = (r, []) := by
  cases fuel with
  | zero => rfl
  | succ fuel =>
    rw [drainLoop, none]
    exact ite_self _

/-- A pass prints the oldest value and removes it. -/
theorem drainLoop_succ (more : limit > half ∧ r.size > 0) {text : List Char}
    (printed : print limit (r.slots r.base) = some text) :
    drainLoop N print half (fuel + 1) limit r =
      ((drainLoop N print half fuel (limit - text.length) (r.drop N 1)).1,
        (r.slots r.base, text) ::
          (drainLoop N print half fuel (limit - text.length) (r.drop N 1)).2) := by
  rw [drainLoop, if_pos more, printed]
  rfl

/-- **The loop on a ring is the reader of its contents.** -/
theorem drainLoop_eq (indexed : r.WellIndexed N) (enough : r.size ≤ fuel) (limit : Int) :
    drainLoop N print half fuel limit r =
      (r.drop N (fill print half limit (r.contents N)).length,
        fill print half limit (r.contents N)) := by
  have stay : ∀ {r : Buffer α}, r.WellIndexed N → r.drop N 0 = r := fun ok => by
    simp [Buffer.drop, Nat.mod_eq_of_lt ok.base_lt]
  induction fuel generalizing r limit with
  | zero =>
    have empty : r.contents N = [] := List.eq_nil_of_length_eq_zero (by simp; omega)
    rw [drainLoop, empty, fill, List.length_nil, stay indexed]
  | succ fuel ih =>
    by_cases pending : r.size > 0
    · rw [Buffer.contents_eq_cons pending indexed.base_lt, fill]
      by_cases wide : limit > half
      · rw [if_pos wide]
        cases printed : print limit (r.slots r.base) with
        | none => rw [drainLoop_of_none printed, List.length_nil, stay indexed]
        | some text =>
          have next : (r.drop N 1).WellIndexed N := indexed.drop pending
          have fewer : (r.drop N 1).size ≤ fuel := by
            simp only [Buffer.drop]
            omega
          rw [drainLoop_succ ⟨wide, pending⟩ printed, ih next fewer, Buffer.contents_drop,
            Buffer.drop_drop, Nat.add_comm 1]
          rfl
      · rw [drainLoop_of_not (fun both => wide both.1), if_neg wide, List.length_nil, stay indexed]
    · have empty : r.contents N = [] := List.eq_nil_of_length_eq_zero (by simp; omega)
      rw [drainLoop_of_not (fun both => pending both.2), empty, fill, List.length_nil, stay indexed]

/-- **What a reader prints** is what its printer returns while more than half of the page is left. -/
theorem mem_drainLoop {P : α → List Char → Prop}
    (printed : ∀ limit, limit > half → ∀ x text, print limit x = some text → P x text) :
    ∀ y ∈ (drainLoop N print half fuel limit r).2, P y.1 y.2 := by
  induction fuel generalizing limit r with
  | zero => exact fun _ member => by cases member
  | succ fuel ih =>
    by_cases more : limit > half ∧ r.size > 0
    · cases result : print limit (r.slots r.base) with
      | none =>
        rw [drainLoop_of_none result]
        exact fun _ member => by cases member
      | some text =>
        rw [drainLoop_succ more result]
        intro y member
        rcases List.mem_cons.mp member with rfl | later
        · exact printed limit more.1 _ _ result
        · exact ih y later
    · rw [drainLoop_of_not more]
      exact fun _ member => by cases member

/-- A printer that prints whole lines as long as half of the page is left: so does the reader. -/
theorem drainLoop_whole {line : α → List Char}
    (whole : ∀ limit, limit > half → ∀ x, print limit x = some (line x)) :
    ∀ y ∈ (drainLoop N print half fuel limit r).2, y.2 = line y.1 :=
  mem_drainLoop (P := fun x text => text = line x) fun limit wide x _ printed =>
    Option.some.inj (printed.symm.trans (whole limit wide x))

/-- **A reader stays within its page**, if every text it prints is shorter than what is left of it. -/
theorem length_drainLoop_lt
    (short : ∀ limit, limit > half → ∀ x text, print limit x = some text → text.length < limit)
    (room : 0 < limit) :
    (((drainLoop N print half fuel limit r).2.flatMap Prod.snd).length : Int) < limit := by
  induction fuel generalizing limit r with
  | zero => exact room
  | succ fuel ih =>
    by_cases more : limit > half ∧ r.size > 0
    · cases result : print limit (r.slots r.base) with
      | none =>
        rw [drainLoop_of_none result]
        exact room
      | some text =>
        have fits := short limit more.1 _ _ result
        have rest := ih (r := r.drop N 1) (show 0 < limit - text.length by omega)
        rw [drainLoop_succ more result, List.flatMap_cons, List.length_append]
        dsimp only
        omega
    · rw [drainLoop_of_not more]
      exact room

end Loop

end PageReader
