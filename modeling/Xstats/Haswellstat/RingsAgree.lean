/-
**The two rings answer alike.**

haswellstat and micstat clear their ring by moving `buffer_next` back, xstat by moving `buffer_base`
forward, so that after a clear the indices of two rings driven alike stand at different places for the
rest of the run, with different stale slots behind them. What the two still have in common is the list
of pending samples (`Agree`), and that is all a reader sees.

* `Agree.step`: every operation keeps the rings in agreement and gives out the same.
* `rings_agree`: so does every sequence of operations.
-/

import Xstats.Haswellstat.Ring
import Xstats.Xstat.Ring

namespace Xstats.Haswellstat

open PageReader RingBuffer

variable {α : Type}

/-- What can happen to both rings. A clear is a write that each of them takes for one: the text
written to micstat's clear attribute, the length of the one written to xstat's reset attribute. -/
inductive RingOp (α : Type)
  | rollBuffer (sample : α)
  | clear (buf : { buf : List Char // Ring.clears buf = true }) (count : { count : Nat // count > 0 })
  | showStat
  | showLast

/-- What an operation gives out. Beside the text of a last read stands how many samples were pending. -/
inductive RingOut (α : Type)
  | done
  | stat (out : List (α × List Char))
  | last (pending : Nat) (text : Option (List Char))

/-- An operation on micstat's ring. -/
def micstatStep (N : Nat) (print : Int → α → Option (List Char)) (r : Buffer α) :
    RingOp α → Buffer α × RingOut α
  | .rollBuffer sample => (Ring.rollBuffer N r sample, .done)
  | .clear buf _ => (Ring.storeClear r buf.val, .done)
  | .showStat =>
    let (left, out) := Ring.showStat N print r
    (left, .stat out)
  | .showLast => (r, .last r.size (Ring.showLast N print r))

/-- The same operation on xstat's ring. -/
def xstatStep (N : Nat) (print : Int → α → Option (List Char)) (r : Buffer α) :
    RingOp α → Buffer α × RingOut α
  | .rollBuffer sample => (Xstat.Ring.rollBuffer N r sample, .done)
  | .clear _ count => (Xstat.Ring.storeResetAttr r count.val, .done)
  | .showStat =>
    let (left, out) := Xstat.Ring.showStatAttr N print r
    (left, .stat out)
  | .showLast => (r, .last r.size (Xstat.Ring.showLastAttr N print r))

/-- The operations one after the other: the ring they leave, and what each gave out. -/
def runRing (step : Buffer α → RingOp α → Buffer α × RingOut α) (r : Buffer α) :
    List (RingOp α) → Buffer α × List (RingOut α)
  | [] => (r, [])
  | op :: rest =>
    let (next, out) := step r op
    let (left, outs) := runRing step next rest
    (left, out :: outs)

/-- The same was given out. Last reads need to agree only where something was pending. -/
inductive SameOut : RingOut α → RingOut α → Prop
  | done : SameOut .done .done
  | stat (out : List (α × List Char)) : SameOut (.stat out) (.stat out)
  | last (pending : Nat) {text text' : Option (List Char)} (same : 0 < pending → text = text') :
      SameOut (.last pending text) (.last pending text')

/-- The indices of both rings hang together, and both hold the same pending samples. -/
structure Agree (N : Nat) (mic xstat : Buffer α) : Prop where
  micIndexed : mic.WellIndexed N
  xstatIndexed : xstat.WellIndexed N
  contents : mic.contents N = xstat.contents N

namespace Agree

variable {N : Nat} (print : Int → α → Option (List Char)) {mic xstat : Buffer α}

theorem size_eq (agree : Agree N mic xstat) : mic.size = xstat.size := by
  rw [← Buffer.length_contents N mic, agree.contents, Buffer.length_contents]

theorem rollBuffer (agree : Agree N mic xstat) (sample : α) :
    Agree N (Ring.rollBuffer N mic sample) (Xstat.Ring.rollBuffer N xstat sample) := by
  have pushed := Buffer.contents_push agree.micIndexed ⟨[], xstat.contents N⟩ agree.contents sample
  have pushed' := Buffer.contents_push agree.xstatIndexed ⟨[], xstat.contents N⟩ rfl sample
  rw [Ring.rollBuffer_eq_push, Xstat.Ring.rollBuffer_eq_push]
  exact ⟨agree.micIndexed.push sample, agree.xstatIndexed.push sample, pushed.trans pushed'.symm⟩

theorem clear (agree : Agree N mic xstat) {buf : List Char} (accepted : Ring.clears buf = true)
    {count : Nat} (positive : count > 0) :
    Agree N (Ring.storeClear mic buf) (Xstat.Ring.storeResetAttr xstat count) := by
  rw [Ring.storeClear_of_clears accepted, Xstat.Ring.storeResetAttr_of_pos positive]
  exact ⟨agree.micIndexed.retreat, agree.xstatIndexed.clear, rfl⟩

theorem showStat (agree : Agree N mic xstat) :
    Agree N (Ring.showStat N print mic).1 (Xstat.Ring.showStatAttr N print xstat).1 ∧
      (Ring.showStat N print mic).2 = (Xstat.Ring.showStatAttr N print xstat).2 := by
  have within : ∀ {r : Buffer α},
      (fill print (pageSize / 2) pageSize (r.contents N)).length ≤ r.size := fun {r} => by
    simpa using length_fill_le print (pageSize / 2) pageSize (r.contents N)
  rw [Ring.showStat_eq agree.micIndexed, Xstat.Ring.showStatAttr_eq agree.xstatIndexed]
  refine ⟨⟨agree.micIndexed.drop within, agree.xstatIndexed.drop within, ?_⟩, ?_⟩
  · rw [Buffer.contents_drop, Buffer.contents_drop, agree.contents]
  · rw [agree.contents]

theorem showLast (agree : Agree N mic xstat) (some : 0 < mic.size) :
    Ring.showLast N print mic = Xstat.Ring.showLastAttr N print xstat := by
  have newest := Buffer.newest_eq (N := N) some
  rw [Ring.showLast_eq, newest]
  rw [agree.contents] at newest
  exact (Xstat.Ring.showLastAttr_eq agree.xstatIndexed newest).symm

/-- **One operation.** -/
theorem step (agree : Agree N mic xstat) (op : RingOp α) :
    Agree N (micstatStep N print mic op).1 (xstatStep N print xstat op).1 ∧
      SameOut (micstatStep N print mic op).2 (xstatStep N print xstat op).2 := by
  cases op with
  | rollBuffer sample => exact ⟨agree.rollBuffer sample, .done⟩
  | clear buf count => exact ⟨agree.clear buf.property count.property, .done⟩
  | showStat =>
    obtain ⟨after, same⟩ := agree.showStat print
    refine ⟨after, ?_⟩
    change SameOut (.stat (Ring.showStat N print mic).2) (.stat (Xstat.Ring.showStatAttr N print xstat).2)
    rw [same]
    exact .stat _
  | showLast =>
    refine ⟨agree, ?_⟩
    change SameOut (.last mic.size _) (.last xstat.size _)
    rw [← agree.size_eq]
    exact .last _ (agree.showLast print)

/-- All operations. -/
theorem run (agree : Agree N mic xstat) (ops : List (RingOp α)) :
    Agree N (runRing (micstatStep N print) mic ops).1 (runRing (xstatStep N print) xstat ops).1 ∧
      List.Forall₂ SameOut (runRing (micstatStep N print) mic ops).2
        (runRing (xstatStep N print) xstat ops).2 := by
  induction ops generalizing mic xstat with
  | nil => exact ⟨agree, .nil⟩
  | cons op rest ih =>
    obtain ⟨next, same⟩ := agree.step print op
    obtain ⟨after, others⟩ := ih next
    exact ⟨after, .cons same others⟩

end Agree

/-- **The rings of micstat and xstat answer alike.** Of any capacity, with any record printer, both
empty at the start whatever their slots hold, and driven by the same rolls, clears and reads: every
stat read prints the same records with the same texts from both, and every last read made while
something is pending prints the same. The indices of each hang together, and both hold the same pending
samples, in the same order. -/
theorem rings_agree {N : Nat} (positive : 0 < N) (print : Int → α → Option (List Char))
    (slots slots' : Nat → α) (ops : List (RingOp α)) :
    let mic := runRing (micstatStep N print) (emptyRing slots) ops
    let xstat := runRing (xstatStep N print) (emptyRing slots') ops
    mic.1.WellIndexed N ∧ xstat.1.WellIndexed N ∧ mic.1.contents N = xstat.1.contents N ∧
      List.Forall₂ SameOut mic.2 xstat.2 := by
  have start : Agree N (emptyRing slots) (emptyRing slots') :=
    ⟨Ring.wellIndexed_emptyRing positive slots, Ring.wellIndexed_emptyRing positive slots', rfl⟩
  obtain ⟨agree, same⟩ := start.run print ops
  exact ⟨agree.micIndexed, agree.xstatIndexed, agree.contents, same⟩

/-- For rings of two slots: a roll, a clear, three rolls over the end of the ring, and both reads. -/
def clearedOnce : List (RingOp Nat) :=
  [.rollBuffer 1, .clear ⟨"1".toList, rfl⟩ ⟨1, Nat.one_pos⟩, .rollBuffer 2, .rollBuffer 3,
    .rollBuffer 4, .showLast, .showStat]

/-- After the clear the indices differ, and the reads agree. -/
theorem rings_agree_cleared :
    let print : Int → Nat → Option (List Char) := fun _ sample => some (Nat.toDigits 10 sample)
    let mic := runRing (micstatStep 2 print) (emptyRing fun _ => 0) clearedOnce
    let xstat := runRing (xstatStep 2 print) (emptyRing fun _ => 0) clearedOnce
    mic.1.next ≠ xstat.1.next ∧ List.Forall₂ SameOut mic.2 xstat.2 := by
  refine ⟨by decide, ?_⟩
  exact (rings_agree (by decide) _ (fun _ => 0) (fun _ => 0) clearedOnce).2.2.2

end Xstats.Haswellstat
