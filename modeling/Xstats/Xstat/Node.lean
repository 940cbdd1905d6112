/-
**One xstat node** (`xstat.c`): its memory, registration, printing, and its three attributes.

`XstatNode` is `struct xstat_node` without the fields nothing here reads: the attribute names and
callbacks, and the spin lock. What the source does between `spin_lock_bh(&node->lock)` and the
matching unlock is one function here, so that its steps are never interleaved with those of another
party that takes the lock.

A function that follows a context pointer returns an `Option`: `none` is the fault the kernel takes
on a null pointer. `scnprintf` never returns a negative number, so neither `CHECK_RET` nor the
`ret < 0` test of the reader ever leaves its loop early, and there is no case for them.
-/

import Xstats.Lib.RingBuffer
import Xstats.Xstat.Ipmi

namespace Xstats.Xstat

open BoundedText Bytes FlatJson RingBuffer

/-- `XSTAT_NBUF`. -/
abbrev xstatNbuf : Nat := 256

/-- `PAGE_SIZE`, an attribute's buffer. -/
abbrev pageSize : Nat := 4096

/-- `struct xstat_node`. The rows of `buffer` are its records; `task` is the thread's id. -/
structure XstatNode where
  id : Nat
  task : Option Nat
  ctxs : Fin xstatNcnt → Slot
  buffer : Nat → Record
  workingBuf : Record
  bufferBase : Nat
  bufferNext : Nat
  bufferSize : Nat

/-- The node that `register_xstat_node` sets up when its allocations succeed: all zero. -/
def registerXstatNode (nid : Nat) : XstatNode :=
  { id := nid, task := none, ctxs := fun _ => .null, buffer := fun _ _ => 0,
    workingBuf := fun _ => 0, bufferBase := 0, bufferNext := 0, bufferSize := 0 }

namespace XstatNode

/-- The node's ring buffer. -/
def ring (node : XstatNode) : Buffer Record :=
  ⟨node.buffer, node.bufferBase, node.bufferNext, node.bufferSize⟩

/-- The samples that are pending, oldest first. -/
def pending (node : XstatNode) : List Record := node.ring.contents xstatNbuf

/-! ### Counter contexts -/

/-- One iteration of `init_counters`. The address is that of the context `perf_init` allocates;
`xstat_ipmi_cnt_init` stores its `data`. -/
def initCounter (node : XstatNode) (allocated : Nat) (i : Fin xstatNcnt) : XstatNode :=
  match (nodeCounters i).init, (nodeCounters i).data with
  | some .perfInit, _ => { node with ctxs := Function.update node.ctxs i (.perf allocated) }
  | some .xstatIpmiCntInit, .ipmi group =>
    { node with ctxs := Function.update node.ctxs i (.ipmi group) }
  | _, _ => node

/-- `init_counters`, given the addresses its allocations get. -/
def initCounters (node : XstatNode) (allocated : Fin xstatNcnt → Nat) : XstatNode :=
  (List.finRange xstatNcnt).foldl (fun node i => node.initCounter (allocated i) i) node

/-- What `init_counters` leaves in entry `i`, which held `before`. -/
def initSlot (i : Fin xstatNcnt) (allocated : Nat) (before : Slot) : Slot :=
  match (nodeCounters i).init, (nodeCounters i).data with
  | some .perfInit, _ => .perf allocated
  | some .xstatIpmiCntInit, .ipmi group => .ipmi group
  | _, _ => before

/-- The IPMI entries of `ctxs` hold the addresses of their groups. -/
def IpmiReady (node : XstatNode) : Prop :=
  ∀ i group, (nodeCounters i).data = .ipmi group → node.ctxs i = .ipmi group

theorem ctxs_initCounter (node : XstatNode) (allocated : Nat) (i : Fin xstatNcnt) :
    (node.initCounter allocated i).ctxs =
      Function.update node.ctxs i (initSlot i allocated (node.ctxs i)) := by
  unfold initCounter initSlot
  split
  · rfl
  · rfl
  · exact (Function.update_eq_self i node.ctxs).symm

/-- Every entry is set by its own iteration and by no other. -/
theorem ctxs_initCounters (node : XstatNode) (allocated : Fin xstatNcnt → Nat) (i : Fin xstatNcnt) :
    (node.initCounters allocated).ctxs i = initSlot i (allocated i) (node.ctxs i) := by
  have all : ∀ counters : List (Fin xstatNcnt), counters.Nodup → ∀ node : XstatNode,
      (counters.foldl (fun node i => node.initCounter (allocated i) i) node).ctxs i =
        if i ∈ counters then initSlot i (allocated i) (node.ctxs i) else node.ctxs i := by
    intro counters
    induction counters with
    | nil => exact fun _ _ => rfl
    | cons j rest ih =>
      intro distinct node
      obtain ⟨fresh, others⟩ := List.nodup_cons.mp distinct
      rw [List.foldl_cons, ih others, ctxs_initCounter]
      by_cases here : i = j
      · subst here
        simp [fresh]
      · simp [here]
  exact (all _ (List.nodup_finRange _) node).trans (if_pos (List.mem_finRange i))

/-- Initialisation sets the IPMI entries, whatever they held. -/
theorem ipmiReady_initCounters (node : XstatNode) (allocated : Fin xstatNcnt → Nat) :
    (node.initCounters allocated).IpmiReady := by
  have own : ∀ i group, (nodeCounters i).data = .ipmi group →
      (nodeCounters i).init = some .xstatIpmiCntInit := by decide
  intro i group data
  simp only [ctxs_initCounters, initSlot, own i group data, data]

@[simp] theorem ring_initCounter (node : XstatNode) (allocated : Nat) (i : Fin xstatNcnt) :
    (node.initCounter allocated i).ring = node.ring := by
  unfold initCounter
  split <;> rfl

@[simp] theorem ring_initCounters (node : XstatNode) (allocated : Fin xstatNcnt → Nat) :
    (node.initCounters allocated).ring = node.ring := by
  have all : ∀ counters : List (Fin xstatNcnt), ∀ node : XstatNode,
      (counters.foldl (fun node i => node.initCounter (allocated i) i) node).ring = node.ring := by
    intro counters
    induction counters with
    | nil => exact fun _ => rfl
    | cons i rest ih => exact fun node => (ih _).trans (ring_initCounter node _ i)
  exact all _ node

/-! ### Writing the ring -/

/-- The critical section of `roll_buffer`. -/
def commit (node : XstatNode) : XstatNode :=
  let node := { node with buffer := Function.update node.buffer node.bufferNext node.workingBuf }
  let node := { node with bufferNext := (node.bufferNext + 1) % xstatNbuf }
  if node.bufferSize < xstatNbuf then
    { node with bufferSize := node.bufferSize + 1 }
  else
    { node with bufferBase := (node.bufferBase + 1) % xstatNbuf }

/-- `store_reset_attr`. -/
def storeResetAttr (node : XstatNode) (count : Nat) : XstatNode :=
  if count > 0 then { node with bufferSize := 0, bufferBase := node.bufferNext } else node

@[simp] theorem ring_commit (node : XstatNode) :
    node.commit.ring = node.ring.push xstatNbuf node.workingBuf := by
  by_cases room : node.bufferSize < xstatNbuf <;> simp [commit, ring, Buffer.push, room]

@[simp] theorem ctxs_commit (node : XstatNode) : node.commit.ctxs = node.ctxs := by
  simp only [commit]
  split <;> rfl

@[simp] theorem workingBuf_commit (node : XstatNode) :
    node.commit.workingBuf = node.workingBuf := by
  simp only [commit]
  split <;> rfl

@[simp] theorem task_commit (node : XstatNode) : node.commit.task = node.task := by
  simp only [commit]
  split <;> rfl

theorem ring_storeResetAttr (node : XstatNode) (count : Nat) :
    (node.storeResetAttr count).ring = if count > 0 then node.ring.clear else node.ring := by
  unfold storeResetAttr
  split <;> rfl

@[simp] theorem ctxs_storeResetAttr (node : XstatNode) (count : Nat) :
    (node.storeResetAttr count).ctxs = node.ctxs := by
  unfold storeResetAttr
  split <;> rfl

@[simp] theorem workingBuf_storeResetAttr (node : XstatNode) (count : Nat) :
    (node.storeResetAttr count).workingBuf = node.workingBuf := by
  unfold storeResetAttr
  split <;> rfl

@[simp] theorem task_storeResetAttr (node : XstatNode) (count : Nat) :
    (node.storeResetAttr count).task = node.task := by
  unfold storeResetAttr
  split <;> rfl

end XstatNode

/-! ### Printing a record -/

/-- `temp_scnprintf`, without `TEMP_DETAIL`. -/
def tempScnprintf (limit : Int) (data : Word) : List Char :=
  scnprintf limit ("\"tpkg\":".toList ++ Decimal.signed (data &&& 0xff).toNat)

/-- A call through the `scnprintf` pointer, with the entry of `ctxs` the counter is given. The IPMI
formatter follows it, so it must be the address of a group. -/
def callScnprintf (limit : Int) (data : Word) : CounterScnprintf → Slot → Option (List Char)
  | .tempScnprintf, _ => some (tempScnprintf limit data)
  | .xstatIpmiScnprintf, .ipmi group => some (xstatIpmiScnprintf (xstatIpmiCtx group) limit data)
  | .xstatIpmiScnprintf, _ => none

namespace XstatNode

/-- A counter's own characters in `print_buffer`: by its formatter, or else name and number. -/
def printField (node : XstatNode) (buf : Record) (cursor : Cursor) (i : Fin xstatNcnt) :
    Option Cursor :=
  match (nodeCounters i).scnprintf with
  | some f => (callScnprintf cursor.limit (buf i) f (node.ctxs i)).map cursor.advance
  | none => some (cursor.put ('"' :: (nodeCounters i).name.toList ++
      ('"' :: ':' :: Decimal.natural (buf i).toNat)))

/-- One iteration of the loop in `print_buffer`. -/
def printCounter (node : XstatNode) (buf : Record) (cursor : Cursor) (i : Fin xstatNcnt) :
    Option Cursor := do
  let cursor ← node.printField buf cursor i
  return if i.val ≠ xstatNcnt - 1 then cursor.put [','] else cursor

/-- `print_buffer`: the characters written. -/
def printBuffer (limit : Int) (node : XstatNode) (buf : Record) : Option (List Char) := do
  let cursor := (Cursor.start limit).put ['{']
  let cursor ← (List.finRange xstatNcnt).foldlM (node.printCounter buf) cursor
  return (cursor.put ['}', '\n']).text

/-- What a read of the stat attribute printed: the text, and the records it was printed from. -/
structure StatRead where
  text : List Char
  records : List Record

/-- The loop of `show_stat_attr`. Every pass takes a record out of the ring, so that `bufferSize`
passes are enough. The limit stays positive, which makes the comparison with the unsigned
`PAGE_SIZE / 2` the one of the integers. -/
def showStatLoop : Nat → Int → XstatNode → StatRead → XstatNode × Option StatRead
  | 0, _, node, read => (node, some read)
  | fuel + 1, limit, node, read =>
    if limit > pageSize / 2 ∧ node.bufferSize > 0 then
      match printBuffer limit node (node.buffer node.bufferBase) with
      | none => (node, none)
      | some ret =>
        showStatLoop fuel (limit - ret.length)
          { node with
            bufferBase := (node.bufferBase + 1) % xstatNbuf
            bufferSize := node.bufferSize - 1 }
          { text := read.text ++ ret, records := read.records ++ [node.buffer node.bufferBase] }
    else (node, some read)

/-- `show_stat_attr`: the node it leaves and what it printed. -/
def showStatAttr (node : XstatNode) : XstatNode × Option StatRead :=
  showStatLoop node.bufferSize pageSize node ⟨[], []⟩

/-- `show_last_attr`: what it printed. It writes nothing to the node. -/
def showLastAttr (node : XstatNode) : Option (List Char) :=
  let bufferLast := (xstatNbuf + node.bufferNext - 1) % xstatNbuf
  printBuffer pageSize node (node.buffer bufferLast)

/-- A stat read moves indices and nothing else. -/
structure SameContexts (node node' : XstatNode) : Prop where
  task_eq : node'.task = node.task
  ctxs_eq : node'.ctxs = node.ctxs
  workingBuf_eq : node'.workingBuf = node.workingBuf

theorem sameContexts_showStatLoop (fuel : Nat) (limit : Int) (node : XstatNode) (read : StatRead) :
    SameContexts node (showStatLoop fuel limit node read).1 := by
  induction fuel generalizing limit node read with
  | zero => exact ⟨rfl, rfl, rfl⟩
  | succ fuel ih =>
    rw [showStatLoop]
    split
    · cases printBuffer limit node (node.buffer node.bufferBase) with
      | none => exact ⟨rfl, rfl, rfl⟩
      | some ret =>
        obtain ⟨task, ctxs, workingBuf⟩ := ih (limit - ret.length)
          { node with
            bufferBase := (node.bufferBase + 1) % xstatNbuf
            bufferSize := node.bufferSize - 1 }
          { text := read.text ++ ret, records := read.records ++ [node.buffer node.bufferBase] }
        exact ⟨task, ctxs, workingBuf⟩
    · exact ⟨rfl, rfl, rfl⟩

theorem sameContexts_showStatAttr (node : XstatNode) : SameContexts node node.showStatAttr.1 :=
  sameContexts_showStatLoop _ _ _ _

end XstatNode

end Xstats.Xstat
