/-
**The ring of xstat at any capacity.**

The critical sections of xstat's `roll_buffer`, `store_reset_attr`, `show_stat_attr` and
`show_last_attr` as operations on a ring, for records of any type and any record printer. A reset
empties the ring by setting `buffer_base` forward to `buffer_next`.

* `ring_commit_eq`, `ring_storeResetAttr_eq`, `ring_showStatAttr_eq`, `showLastAttr_eq_ring`: the
  operations of a node are these, at its capacity and with its printer.
-/

import Xstats.Lib.PageReader
import Xstats.Xstat.Node

namespace Xstats.Xstat

open BoundedText PageReader RingBuffer

namespace Ring

variable {α : Type} (N : Nat) (print : Int → α → Option (List Char))

/-- The critical section of `roll_buffer`. -/
def rollBuffer (r : Buffer α) (sample : α) : Buffer α :=
  let r := { r with slots := Function.update r.slots r.next sample }
  let r := { r with next := (r.next + 1) % N }
  if r.size < N then { r with size := r.size + 1 } else { r with base := (r.base + 1) % N }

/-- `store_reset_attr`. -/
def storeResetAttr (r : Buffer α) (count : Nat) : Buffer α :=
  if count > 0 then { r with size := 0, base := r.next } else r

/-- `show_stat_attr`: the ring it leaves, and the records it printed with their texts. -/
def showStatAttr (r : Buffer α) : Buffer α × List (α × List Char) :=
  drainLoop N print (pageSize / 2) r.size pageSize r

/-- `show_last_attr`: what it printed. -/
def showLastAttr (r : Buffer α) : Option (List Char) :=
  print pageSize (r.slots ((N + r.next - 1) % N))

variable {N} {print} {r : Buffer α}

theorem rollBuffer_eq_push (sample : α) : rollBuffer N r sample = r.push N sample := by
  by_cases room : r.size < N <;> simp [rollBuffer, Buffer.push, room]

theorem storeResetAttr_of_pos {count : Nat} (positive : count > 0) :
    storeResetAttr r count = r.clear := if_pos positive

theorem showStatAttr_eq (indexed : r.WellIndexed N) :
    showStatAttr N print r =
      (r.drop N (fill print (pageSize / 2) pageSize (r.contents N)).length,
        fill print (pageSize / 2) pageSize (r.contents N)) :=
  drainLoop_eq indexed le_rfl _

/-- Where something is pending the last attribute shows the newest of it. -/
theorem showLastAttr_eq (indexed : r.WellIndexed N) {sample : α}
    (newest : (r.contents N).getLast? = some sample) :
    showLastAttr N print r = print pageSize sample := by
  have pending : 0 < r.size := by
    rw [← Buffer.length_contents N r]
    exact List.length_pos_of_mem (List.mem_of_getLast? newest)
  rw [Buffer.newest_eq pending] at newest
  cases newest
  exact congrArg (print pageSize) (Buffer.last_eq_newest indexed pending)

end Ring

namespace XstatNode

/-! ### The node's ring -/

theorem ring_commit_eq (node : XstatNode) :
    node.commit.ring = Ring.rollBuffer xstatNbuf node.ring node.workingBuf := by
  rw [ring_commit, Ring.rollBuffer_eq_push]

theorem ring_storeResetAttr_eq (node : XstatNode) (count : Nat) :
    (node.storeResetAttr count).ring = Ring.storeResetAttr node.ring count := by
  unfold storeResetAttr Ring.storeResetAttr
  split <;> rfl

theorem showLastAttr_eq_ring (node : XstatNode) :
    node.showLastAttr =
      Ring.showLastAttr xstatNbuf (fun limit buf => node.printBuffer limit buf) node.ring := rfl

/-- As far as the loop of `show_stat_attr` does not fault, it is the loop on the node's ring. -/
theorem ring_showStatLoop {fuel : Nat} {limit : Int} {node node' : XstatNode} {before read : StatRead}
    (done : showStatLoop fuel limit node before = (node', some read)) :
    ∃ out, drainLoop xstatNbuf (fun limit buf => node.printBuffer limit buf) (pageSize / 2) fuel
        limit node.ring = (node'.ring, out) ∧
      read.text = before.text ++ (out.map Prod.snd).flatten ∧
      read.records = before.records ++ out.map Prod.fst := by
  induction fuel generalizing limit node before with
  | zero =>
    cases done
    exact ⟨[], rfl, by simp, by simp⟩
  | succ fuel ih =>
    rw [showStatLoop] at done
    split at done
    · next more =>
      cases printed : printBuffer limit node (node.buffer node.bufferBase) with
      | none =>
        rw [printed] at done
        cases done
      | some text =>
        rw [printed] at done
        obtain ⟨out, result, sameText, sameRecords⟩ := ih done
        refine ⟨(node.buffer node.bufferBase, text) :: out, ?_, by simp [sameText],
          by simp [sameRecords]⟩
        exact (drainLoop_succ (r := node.ring) more printed).trans
          (congrArg (fun left => (left.1, (node.buffer node.bufferBase, text) :: left.2)) result)
    · next ends =>
      cases done
      exact ⟨[], drainLoop_of_not ends, by simp, by simp⟩

theorem ring_showStatAttr_eq {node node' : XstatNode} {read : StatRead}
    (done : node.showStatAttr = (node', some read)) :
    ∃ out, Ring.showStatAttr xstatNbuf (fun limit buf => node.printBuffer limit buf) node.ring =
        (node'.ring, out) ∧
      read.text = (out.map Prod.snd).flatten ∧ read.records = out.map Prod.fst := by
  obtain ⟨out, result, text, records⟩ := ring_showStatLoop done
  exact ⟨out, result, by simpa using text, by simpa using records⟩

end XstatNode

end Xstats.Xstat
