/-
**Bounded first-in first-out queues that overwrite, and the rings that hold them.**

### The queue

A queue of capacity `N` accepts every value it is offered; when it is full it gives up its oldest
value. `Ledger` keeps, besides the values pending, what became of every value that left: delivered
to a reader, overwritten by a later one, or discarded by a clear. `Ledger.accepted` is the sequence
of all values in the order they were offered, so that a ledger says that nothing was lost, doubled
or reordered except as its fates tell.

### The ring

`Buffer` is the usual implementation: an array of slots, the index of the oldest value, the index to
write next, and the number of pending values, all three kept although any two determine the third.
`Buffer.contents` is the queue it holds and `Buffer.WellIndexed` the relation between its indices.

* `Buffer.contents_push`, `Buffer.contents_clear`, `Buffer.contents_drop`: the operations of the
  ring are those of the queue.
* `Buffer.contents_retreat`, `Buffer.contents_offer`: a clear that moves `next` back instead of `base`
  forward, and a write that a full ring refuses.
* `Buffer.last_push`, `Buffer.last_eq_newest`: the slot before `next` holds the value written last,
  and where something is pending it is the slot that `base` and `size` lead to.
-/

import Mathlib.Data.List.Induction
import Mathlib.Data.Nat.ModEq
import Mathlib.Logic.Function.Basic

namespace RingBuffer

variable {α : Type}

/-! ### The queue and its ledger -/

/-- What became of a value that is no longer pending. -/
inductive Fate
  | delivered
  | overwritten
  | discarded
  deriving DecidableEq, Repr

/-- The values that left the queue, with their fates, and those pending, oldest first. -/
structure Ledger (α : Type) where
  settled : List (α × Fate)
  pending : List α

namespace Ledger

/-- The queue before anything was offered. -/
def empty : Ledger α := ⟨[], []⟩

/-- The `count` oldest pending values leave, all with the same fate. -/
def settle (l : Ledger α) (fate : Fate) (count : Nat) : Ledger α :=
  { settled := l.settled ++ (l.pending.take count).map fun old => (old, fate)
    pending := l.pending.drop count }

/-- Offer a value to a queue of capacity `N`: the oldest pending one goes if `N` are pending. -/
def push (N : Nat) (l : Ledger α) (x : α) : Ledger α :=
  let room := if l.pending.length < N then l else l.settle .overwritten 1
  { room with pending := room.pending ++ [x] }

/-- Give up everything that is pending. -/
def clear (l : Ledger α) : Ledger α := l.settle .discarded l.pending.length

/-- Deliver the `count` oldest pending values. -/
def deliver (l : Ledger α) (count : Nat) : Ledger α := l.settle .delivered count

/-- All values ever offered, in order. -/
def accepted (l : Ledger α) : List α := l.settled.map Prod.fst ++ l.pending

/-- The values with one fate, in the order they were offered. -/
def withFate (l : Ledger α) (fate : Fate) : List α :=
  (l.settled.filter fun entry => entry.2 = fate).map Prod.fst

@[simp] theorem accepted_empty : (empty : Ledger α).accepted = [] := rfl

@[simp] theorem accepted_settle (l : Ledger α) (fate : Fate) (count : Nat) :
    (l.settle fate count).accepted = l.accepted := by
  simp [settle, accepted, Function.comp_def]

@[simp] theorem accepted_push (N : Nat) (l : Ledger α) (x : α) :
    (l.push N x).accepted = l.accepted ++ [x] := by
  have append : ∀ room : Ledger α,
      ({ room with pending := room.pending ++ [x] } : Ledger α).accepted = room.accepted ++ [x] :=
    fun room => by simp [accepted]
  unfold push
  rw [append]
  split
  · rfl
  · rw [accepted_settle]

@[simp] theorem accepted_clear (l : Ledger α) : l.clear.accepted = l.accepted :=
  accepted_settle _ _ _

@[simp] theorem accepted_deliver (l : Ledger α) (count : Nat) :
    (l.deliver count).accepted = l.accepted :=
  accepted_settle _ _ _

@[simp] theorem pending_clear (l : Ledger α) : l.clear.pending = [] := by
  simp [clear, settle]

@[simp] theorem pending_deliver (l : Ledger α) (count : Nat) :
    (l.deliver count).pending = l.pending.drop count := rfl

/-- The pending values are the newest ones. -/
theorem pending_suffix (l : Ledger α) : l.pending <:+ l.accepted :=
  List.suffix_append _ _

/-- The values with one fate are among those offered, in the same order. -/
theorem withFate_sublist (l : Ledger α) (fate : Fate) :
    (l.withFate fate).Sublist l.accepted := by
  have settled : (l.withFate fate).Sublist (l.settled.map Prod.fst) :=
    List.filter_sublist.map Prod.fst
  exact settled.trans (List.sublist_append_left _ _)

/-- Settling adds to the values of its own fate and to no other. -/
theorem withFate_settle (l : Ledger α) (fate other : Fate) (count : Nat) :
    (l.settle fate count).withFate other =
      l.withFate other ++ if fate = other then l.pending.take count else [] := by
  by_cases same : fate = other
  · simp [withFate, settle, same, List.filter_map, Function.comp_def, -List.map_take]
  · simp [withFate, settle, same, List.filter_map, Function.comp_def, -List.map_take]

theorem withFate_deliver (l : Ledger α) (count : Nat) :
    (l.deliver count).withFate .delivered = l.withFate .delivered ++ l.pending.take count := by
  simp [deliver, withFate_settle]

theorem withFate_clear (l : Ledger α) :
    l.clear.withFate .delivered = l.withFate .delivered := by
  simp [clear, withFate_settle]

theorem withFate_push (N : Nat) (l : Ledger α) (x : α) :
    (l.push N x).withFate .delivered = l.withFate .delivered := by
  show (if l.pending.length < N then l else l.settle .overwritten 1).withFate .delivered = _
  split
  · rfl
  · simp [withFate_settle]

/-- Offering to a full queue gives up its oldest value. -/
theorem pending_push (N : Nat) (l : Ledger α) (x : α) :
    (l.push N x).pending =
      (if l.pending.length < N then l.pending else l.pending.drop 1) ++ [x] := by
  unfold push
  split <;> rfl

end Ledger

/-! ### Indices modulo the capacity -/

/-- Offsets below the capacity reach different slots. -/
theorem mod_offset_injective {N base i j : Nat} (iBelow : i < N) (jBelow : j < N)
    (same : (base + i) % N = (base + j) % N) : i = j := by
  have congruent : i ≡ j [MOD N] := Nat.ModEq.add_left_cancel' base same
  exact congruent.eq_of_lt_of_lt iBelow jBelow

/-- Moving the base by one moves every offset by one. -/
theorem mod_succ_offset (N base i : Nat) :
    ((base + 1) % N + i) % N = (base + (i + 1)) % N := by
  rw [Nat.mod_add_mod, Nat.add_assoc, Nat.add_comm 1 i]

/-! ### The ring -/

/-- A ring: the slots, the oldest value's index, the index to write next, the number pending. -/
structure Buffer (α : Type) where
  slots : Nat → α
  base : Nat
  next : Nat
  size : Nat

namespace Buffer

/-- How the three indices of a ring of capacity `N` hang together. -/
structure WellIndexed (N : Nat) (r : Buffer α) : Prop where
  base_lt : r.base < N
  next_lt : r.next < N
  size_le : r.size ≤ N
  next_eq : r.next = (r.base + r.size) % N

/-- The pending values, oldest first. -/
def contents (N : Nat) (r : Buffer α) : List α :=
  (List.range r.size).map fun i => r.slots ((r.base + i) % N)

/-- Write at `next`; when the ring is full the base moves past the value overwritten. -/
def push (N : Nat) (r : Buffer α) (x : α) : Buffer α :=
  { slots := Function.update r.slots r.next x
    base := if r.size < N then r.base else (r.base + 1) % N
    next := (r.next + 1) % N
    size := if r.size < N then r.size + 1 else r.size }

/-- Empty the ring where it stands. -/
def clear (r : Buffer α) : Buffer α := { r with base := r.next, size := 0 }

/-- Empty the ring by going back to its base. -/
def retreat (r : Buffer α) : Buffer α := { r with next := r.base, size := 0 }

/-- Write at `next` if there is room. -/
def offer (N : Nat) (r : Buffer α) (x : α) : Buffer α := if r.size < N then r.push N x else r

/-- Drop the `count` oldest values. -/
def drop (N : Nat) (r : Buffer α) (count : Nat) : Buffer α :=
  { r with base := (r.base + count) % N, size := r.size - count }

/-- The slot written last, computed from `next` alone. -/
def last (N : Nat) (r : Buffer α) : α := r.slots ((N + r.next - 1) % N)

/-- The slot of the newest pending value, computed from `base` and `size`. -/
def newest (N : Nat) (r : Buffer α) : α := r.slots ((r.base + r.size - 1) % N)

variable {N : Nat} {r : Buffer α}

@[simp] theorem length_contents (N : Nat) (r : Buffer α) : (r.contents N).length = r.size := by
  simp [contents]

theorem getElem_contents {i : Nat} (inside : i < (r.contents N).length) :
    (r.contents N)[i] = r.slots ((r.base + i) % N) := by
  simp [contents]

theorem WellIndexed.push (ok : r.WellIndexed N) (x : α) : (r.push N x).WellIndexed N := by
  have positive : 0 < N := Nat.lt_of_le_of_lt (Nat.zero_le _) ok.base_lt
  obtain ⟨baseLt, _, sizeLe, nextEq⟩ := ok
  unfold Buffer.push
  by_cases room : r.size < N
  · refine ⟨by simpa [room] using baseLt, Nat.mod_lt _ positive, ?_, ?_⟩
    · exact (if_pos room).trans_le (Nat.succ_le_of_lt room)
    · simp only [room, if_true]
      rw [nextEq, Nat.mod_add_mod, Nat.add_assoc]
  · have full : r.size = N := by omega
    refine ⟨by simp [room, Nat.mod_lt _ positive], Nat.mod_lt _ positive, by simp [full], ?_⟩
    simp only [room, if_false]
    rw [nextEq, full, Nat.add_mod_right, Nat.add_mod_right, Nat.mod_mod, Nat.mod_add_mod]

theorem WellIndexed.clear (ok : r.WellIndexed N) : r.clear.WellIndexed N := by
  refine ⟨ok.next_lt, ok.next_lt, Nat.zero_le _, ?_⟩
  show r.next = (r.next + 0) % N
  rw [Nat.add_zero, Nat.mod_eq_of_lt ok.next_lt]

theorem WellIndexed.retreat (ok : r.WellIndexed N) : r.retreat.WellIndexed N := by
  refine ⟨ok.base_lt, ok.base_lt, Nat.zero_le _, ?_⟩
  show r.base = (r.base + 0) % N
  rw [Nat.add_zero, Nat.mod_eq_of_lt ok.base_lt]

theorem WellIndexed.offer (ok : r.WellIndexed N) (x : α) : (r.offer N x).WellIndexed N := by
  unfold Buffer.offer
  split
  · exact ok.push x
  · exact ok

theorem WellIndexed.drop (ok : r.WellIndexed N) {count : Nat} (within : count ≤ r.size) :
    (r.drop N count).WellIndexed N := by
  have positive : 0 < N := Nat.lt_of_le_of_lt (Nat.zero_le _) ok.base_lt
  refine ⟨Nat.mod_lt _ positive, ok.next_lt, ?_, ?_⟩
  · exact Nat.le_trans (Nat.sub_le _ _) ok.size_le
  · show r.next = ((r.base + count) % N + (r.size - count)) % N
    rw [Nat.mod_add_mod, Nat.add_assoc, Nat.add_sub_cancel' within]
    exact ok.next_eq

/-- With room, the value written joins the queue at its end. -/
theorem contents_push_of_lt (ok : r.WellIndexed N) (room : r.size < N) (x : α) :
    (r.push N x).contents N = r.contents N ++ [x] := by
  have next := ok.next_eq
  simp only [contents, push, room, if_true]
  rw [List.range_succ, List.map_append]
  congr 1
  · refine List.map_congr_left fun i member => ?_
    have below : i < r.size := List.mem_range.mp member
    have apart : (r.base + i) % N ≠ r.next := fun same => by
      rw [next] at same
      exact absurd (mod_offset_injective (below.trans room) room same) below.ne
    exact Function.update_of_ne apart _ _
  · simp [next]

/-- A full ring writes over its oldest value. -/
theorem contents_push_of_full (ok : r.WellIndexed N) (full : r.size = N) (x : α) :
    (r.push N x).contents N = (r.contents N).drop 1 ++ [x] := by
  have positive : 0 < N := Nat.lt_of_le_of_lt (Nat.zero_le _) ok.base_lt
  have next : r.next = r.base := by
    rw [ok.next_eq, full, Nat.add_mod_right, Nat.mod_eq_of_lt ok.base_lt]
  refine List.ext_getElem (by simp [push, full]; omega) fun i left right => ?_
  have below : i < N := by simpa [push, full] using left
  rw [getElem_contents]
  simp only [push, full, Nat.lt_irrefl, if_false]
  rw [mod_succ_offset]
  by_cases lastSlot : i + 1 = N
  · have here : (r.base + (i + 1)) % N = r.next := by
      rw [lastSlot, Nat.add_mod_right, Nat.mod_eq_of_lt ok.base_lt, next]
    rw [here, Function.update_self, List.getElem_append_right (by simp [full]; omega)]
    simp
  · have apart : (r.base + (i + 1)) % N ≠ r.next := fun same => by
      have atBase : (r.base + (i + 1)) % N = (r.base + 0) % N := by
        rw [same, next, Nat.add_zero, Nat.mod_eq_of_lt ok.base_lt]
      exact absurd (mod_offset_injective (by omega) positive atBase) (Nat.succ_ne_zero i)
    rw [Function.update_of_ne apart, List.getElem_append_left (by simp [full]; omega)]
    simp only [List.getElem_drop, getElem_contents, Nat.add_comm 1 i]

/-- **Writing to the ring is offering to the queue.** -/
theorem contents_push (ok : r.WellIndexed N) (l : Ledger α) (held : r.contents N = l.pending)
    (x : α) : (r.push N x).contents N = (l.push N x).pending := by
  have size : l.pending.length = r.size := by rw [← held, length_contents]
  rw [Ledger.pending_push]
  by_cases room : r.size < N
  · rw [contents_push_of_lt ok room, if_pos (by omega), held]
  · have full : r.size = N := Nat.le_antisymm ok.size_le (Nat.le_of_not_lt room)
    rw [contents_push_of_full ok full, if_neg (by omega), held]

/-- What was among the values offered stays so, and the new value comes behind it. -/
theorem contents_push_sublist (ok : r.WellIndexed N) {before offered : List α}
    (sublist : (before ++ r.contents N).Sublist offered) (x : α) :
    (before ++ (r.push N x).contents N).Sublist (offered ++ [x]) := by
  rw [contents_push ok ⟨[], r.contents N⟩ rfl x, Ledger.pending_push, ← List.append_assoc]
  refine List.Sublist.append ?_ (List.Sublist.refl _)
  split
  · exact sublist
  · exact ((List.drop_sublist 1 (r.contents N)).append_left before).trans sublist

@[simp] theorem contents_clear (r : Buffer α) : r.clear.contents N = [] := rfl

@[simp] theorem contents_retreat (r : Buffer α) : r.retreat.contents N = [] := rfl

/-- A write that a full ring refuses: the value joins the queue at its end or is not accepted. -/
theorem contents_offer (ok : r.WellIndexed N) (x : α) :
    (r.offer N x).contents N = r.contents N ++ if r.size < N then [x] else [] := by
  unfold offer
  split
  · exact contents_push_of_lt ok ‹_› x
  · rw [List.append_nil]

/-- Dropping from the ring is dropping from the queue. -/
@[simp] theorem contents_drop (N : Nat) (r : Buffer α) (count : Nat) :
    (r.drop N count).contents N = (r.contents N).drop count := by
  refine List.ext_getElem (by simp [drop]) fun i left right => ?_
  rw [getElem_contents, List.getElem_drop, getElem_contents]
  simp only [drop, Nat.mod_add_mod, Nat.add_assoc]

theorem drop_drop (N : Nat) (r : Buffer α) (first second : Nat) :
    (r.drop N first).drop N second = r.drop N (first + second) := by
  simp [drop, Nat.add_assoc, Nat.sub_sub]

/-- The oldest value is at the base. -/
theorem contents_eq_cons (some : 0 < r.size) (baseLt : r.base < N) :
    r.contents N = r.slots r.base :: (r.contents N).drop 1 := by
  have inside : 0 < (r.contents N).length := by simpa using some
  have head : (r.contents N)[0] = r.slots r.base := by
    rw [getElem_contents, Nat.add_zero, Nat.mod_eq_of_lt baseLt]
  rw [← head]
  exact List.drop_eq_getElem_cons inside

/-- Where something is pending, both ways lead to its end. -/
theorem last_eq_newest (ok : r.WellIndexed N) (some : 0 < r.size) : r.last N = r.newest N := by
  have positive : 0 < N := Nat.lt_of_le_of_lt (Nat.zero_le _) ok.base_lt
  have back : N + r.next - 1 = r.next + (N - 1) := by omega
  have round : r.base + r.size + (N - 1) = r.base + r.size - 1 + N := by omega
  rw [last, newest, back, ok.next_eq, Nat.mod_add_mod, round, Nat.add_mod_right]

theorem newest_eq (some : 0 < r.size) : (r.contents N).getLast? = Option.some (r.newest N) := by
  have inside : r.size - 1 < (r.contents N).length := by
    rw [length_contents]
    exact Nat.sub_lt some Nat.one_pos
  rw [List.getLast?_eq_getElem?, length_contents, List.getElem?_eq_getElem inside,
    getElem_contents, newest, Nat.add_sub_assoc some]

theorem last_push (positive : 0 < N) (nextLt : r.next < N) (x : α) : (r.push N x).last N = x := by
  have back : (N + (r.next + 1) % N - 1) % N = r.next := by
    by_cases wrap : r.next + 1 = N
    · rw [wrap, Nat.mod_self, Nat.add_zero, Nat.mod_eq_of_lt (by omega)]
      omega
    · rw [Nat.mod_eq_of_lt (by omega : r.next + 1 < N), show N + (r.next + 1) - 1 = N + r.next by omega,
        Nat.add_mod_left, Nat.mod_eq_of_lt nextLt]
  simp [last, push, back]

end Buffer

end RingBuffer
