/-
**Initialising xstat** (`xstat_init`, `register_xstat_node` of `xstat.c`).

`xstat_init` registers the IPMI watcher and the class, and then every online node, of whose memory four
parts are allocated and for which three attribute files are created. What `register_xstat_node` returns
is the result of its last `class_create_file`, and `xstat_init` does not look at it: it returns what
`class_register` returned, and goes on after it in either case.

* `foldl_registerNode`: what the loop over the nodes leaves.
* `xstat_init_truthful_iff`: when the value returned tells what was set up.
* `xstatNodes_of_initialised`: where nothing fails, the nodes are those the model of the running module
  starts with.
-/

import Xstats.Xstat.Module

namespace Xstats.Xstat

/-! ### Registration -/

/-- The parts of a node's memory, in the order they are allocated. -/
inductive NodePart
  | node
  | ctxs
  | buffer
  | workingBuf
  deriving DecidableEq, Repr

/-- A node's attribute files, in the order they are created. -/
inductive AttrFile
  | stat
  | last
  | reset
  deriving DecidableEq, Repr

/-- What `xstat_init` finds: the online nodes, and what its fallible steps return. -/
structure InitOutcomes where
  maxNumnodes : Nat
  nodeOnline : Nat → Bool
  classRegister : Int
  /-- `kzalloc` returns memory. -/
  kzalloc : Nat → NodePart → Bool
  classCreateFile : Nat → AttrFile → Int

/-- An entry of `xstat_nodes`: which of the node's arrays are not null. -/
structure NodeEntry where
  ctxs : Bool
  buffer : Bool
  workingBuf : Bool
  deriving DecidableEq, Repr

/-- What `xstat_init` leaves behind it. -/
structure Registered where
  xstatNodes : Nat → Option NodeEntry
  allocations : List (Nat × NodePart)
  files : List (Nat × AttrFile)
  classRegistered : Bool
  ipmiWatcher : Bool

namespace Registered

/-- One of the node's allocations, in the list if it succeeds. -/
def allocate (o : InitOutcomes) (nid : Nat) (part : NodePart) (s : Registered) : Registered :=
  if o.kzalloc nid part then { s with allocations := s.allocations ++ [(nid, part)] } else s

/-- `class_create_file`: what it returns, and the file if it succeeds. -/
def createFile (o : InitOutcomes) (nid : Nat) (file : AttrFile) (s : Registered) : Int × Registered :=
  (o.classCreateFile nid file,
    if o.classCreateFile nid file = 0 then { s with files := s.files ++ [(nid, file)] } else s)

/-- `register_xstat_node`. -/
def registerNode (o : InitOutcomes) (nid : Nat) (s : Registered) : Int × Registered :=
  if o.nodeOnline nid then
    -- `-ENOMEM`
    if ¬ o.kzalloc nid .node then (-12, s)
    else
      let s := s.allocate o nid .node
      let entry : NodeEntry :=
        ⟨o.kzalloc nid .ctxs, o.kzalloc nid .buffer, o.kzalloc nid .workingBuf⟩
      let s := { s with xstatNodes := Function.update s.xstatNodes nid (some entry) }
      let s := s.allocate o nid .ctxs
      let s := s.allocate o nid .buffer
      let s := s.allocate o nid .workingBuf
      let (_, s) := s.createFile o nid .stat
      let (_, s) := s.createFile o nid .last
      let (err, s) := s.createFile o nid .reset
      (err, s)
  else (0, s)

end Registered

/-- The iterations of `for_each_online_node`. -/
def InitOutcomes.onlineNodes (o : InitOutcomes) : List Nat :=
  (List.range o.maxNumnodes).filter o.nodeOnline

/-- `xstat_init`: what it returns, and what it leaves. -/
def initialise (o : InitOutcomes) : Int × Registered :=
  let s : Registered :=
    { xstatNodes := fun _ => none, allocations := [], files := [], classRegistered := false
      ipmiWatcher := true }
  let ret := o.classRegister
  let s := { s with classRegistered := decide (ret = 0) }
  (ret, o.onlineNodes.foldl (fun s nid => (s.registerNode o nid).2) s)

/-! ### What the value returned should tell -/

/-- The node is as the samplers and readers take it to be. -/
structure NodeReady (s : Registered) (nid : Nat) : Prop where
  entry : s.xstatNodes nid = some ⟨true, true, true⟩
  files : ∀ file, (nid, file) ∈ s.files

/-- Nothing that the call made remains. -/
structure NothingLeft (s : Registered) : Prop where
  xstatNodes : ∀ nid, s.xstatNodes nid = none
  allocations : s.allocations = []
  files : s.files = []
  classRegistered : s.classRegistered = false
  ipmiWatcher : s.ipmiWatcher = false

/-- Zero tells that every online node is ready, and an error that nothing is left. -/
structure Truthful (o : InitOutcomes) (result : Int × Registered) : Prop where
  ready : result.1 = 0 → ∀ nid ∈ o.onlineNodes, NodeReady result.2 nid
  failed : result.1 ≠ 0 → NothingLeft result.2

/-- Nothing fails. -/
structure AllSucceed (o : InitOutcomes) : Prop where
  classRegister : o.classRegister = 0
  kzalloc : ∀ nid ∈ o.onlineNodes, ∀ part, o.kzalloc nid part = true
  classCreateFile : ∀ nid ∈ o.onlineNodes, ∀ file, o.classCreateFile nid file = 0

/-! ### The loop over the nodes -/

/-- What one registration leaves: the node's own entry and files. -/
structure RegistersNode (o : InitOutcomes) (nid : Nat) (s s' : Registered) : Prop where
  entry : ∀ n, s'.xstatNodes n =
    if n = nid ∧ o.kzalloc nid .node = true then
      some ⟨o.kzalloc nid .ctxs, o.kzalloc nid .buffer, o.kzalloc nid .workingBuf⟩
    else s.xstatNodes n
  files : ∀ n file, (n, file) ∈ s'.files ↔ (n, file) ∈ s.files ∨
    (n = nid ∧ o.kzalloc nid .node = true ∧ o.classCreateFile nid file = 0)
  classRegistered : s'.classRegistered = s.classRegistered
  ipmiWatcher : s'.ipmiWatcher = s.ipmiWatcher

namespace Registered

variable (o : InitOutcomes) (nid : Nat) (part : NodePart) (file : AttrFile) (s : Registered)

@[simp] theorem xstatNodes_allocate : (s.allocate o nid part).xstatNodes = s.xstatNodes := by
  unfold allocate
  split <;> rfl

@[simp] theorem files_allocate : (s.allocate o nid part).files = s.files := by
  unfold allocate
  split <;> rfl

@[simp] theorem classRegistered_allocate :
    (s.allocate o nid part).classRegistered = s.classRegistered := by
  unfold allocate
  split <;> rfl

@[simp] theorem ipmiWatcher_allocate : (s.allocate o nid part).ipmiWatcher = s.ipmiWatcher := by
  unfold allocate
  split <;> rfl

@[simp] theorem xstatNodes_createFile : (s.createFile o nid file).2.xstatNodes = s.xstatNodes := by
  simp only [createFile]
  split <;> rfl

@[simp] theorem classRegistered_createFile :
    (s.createFile o nid file).2.classRegistered = s.classRegistered := by
  simp only [createFile]
  split <;> rfl

@[simp] theorem ipmiWatcher_createFile : (s.createFile o nid file).2.ipmiWatcher = s.ipmiWatcher := by
  simp only [createFile]
  split <;> rfl

@[simp] theorem mem_files_createFile (n : Nat) (f : AttrFile) :
    (n, f) ∈ (s.createFile o nid file).2.files ↔
      (n, f) ∈ s.files ∨ (n = nid ∧ f = file ∧ o.classCreateFile nid file = 0) := by
  simp only [createFile]
  split
  · simp only [List.mem_append, List.mem_singleton, Prod.mk.injEq]
    tauto
  · tauto

variable {o nid}

/-- A node whose own allocation fails gets nothing. -/
theorem registerNode_of_enomem (online : o.nodeOnline nid = true) (failed : o.kzalloc nid .node = false) :
    s.registerNode o nid = (-12, s) := by
  simp [registerNode, online, failed]

theorem registerNode_spec (online : o.nodeOnline nid = true) :
    RegistersNode o nid s (s.registerNode o nid).2 := by
  cases node : o.kzalloc nid .node with
  | false =>
    rw [registerNode_of_enomem s online node]
    exact ⟨fun n => by simp [node], fun n f => by simp [node], rfl, rfl⟩
  | true =>
    simp only [registerNode, online, node, if_true, not_true, if_false]
    constructor
    case entry =>
      intro n
      simp only [xstatNodes_createFile, xstatNodes_allocate, Function.update_apply, node, and_true]
    case files =>
      intro n f
      simp only [mem_files_createFile, files_allocate, node, true_and]
      cases f <;> simp
    case classRegistered => simp
    case ipmiWatcher => simp

end Registered

open Registered

/-- What the registrations of a list of online nodes leave. -/
theorem foldl_registerNode {o : InitOutcomes} {nids : List Nat}
    (online : ∀ nid ∈ nids, o.nodeOnline nid = true) (s : Registered) :
    let after := nids.foldl (fun s nid => (s.registerNode o nid).2) s
    (∀ n, after.xstatNodes n =
      if n ∈ nids ∧ o.kzalloc n .node = true then
        some ⟨o.kzalloc n .ctxs, o.kzalloc n .buffer, o.kzalloc n .workingBuf⟩
      else s.xstatNodes n) ∧
    (∀ n file, (n, file) ∈ after.files ↔ (n, file) ∈ s.files ∨
      (n ∈ nids ∧ o.kzalloc n .node = true ∧ o.classCreateFile n file = 0)) ∧
    after.classRegistered = s.classRegistered ∧ after.ipmiWatcher = s.ipmiWatcher := by
  induction nids generalizing s with
  | nil => simp
  | cons nid rest ih =>
    have first := registerNode_spec s (online nid List.mem_cons_self)
    obtain ⟨entry, files, registered, watcher⟩ :=
      ih (fun n member => online n (List.mem_cons_of_mem _ member)) (s.registerNode o nid).2
    refine ⟨fun n => ?_, fun n file => ?_, registered.trans first.classRegistered,
      watcher.trans first.ipmiWatcher⟩
    · rw [List.foldl_cons, entry, first.entry]
      by_cases own : n = nid
      · subst own
        by_cases node : o.kzalloc n .node = true <;> simp [node]
      · simp [own]
    · rw [List.foldl_cons, files, first.files, List.mem_cons]
      constructor
      · rintro ((old | ⟨rfl, made⟩) | ⟨later, made⟩)
        · exact .inl old
        · exact .inr ⟨.inl rfl, made⟩
        · exact .inr ⟨.inr later, made⟩
      · rintro (old | ⟨rfl | later, made⟩)
        · exact .inl (.inl old)
        · exact .inl (.inr ⟨rfl, made⟩)
        · exact .inr ⟨later, made⟩

theorem mem_onlineNodes {o : InitOutcomes} {nid : Nat} :
    nid ∈ o.onlineNodes ↔ nid < o.maxNumnodes ∧ o.nodeOnline nid = true := by
  rw [InitOutcomes.onlineNodes, List.mem_filter, List.mem_range]

/-- What `xstat_init` leaves of each node, of the class and of the watcher. -/
theorem initialise_spec (o : InitOutcomes) :
    (initialise o).1 = o.classRegister ∧
    (∀ n, (initialise o).2.xstatNodes n =
      if n ∈ o.onlineNodes ∧ o.kzalloc n .node = true then
        some ⟨o.kzalloc n .ctxs, o.kzalloc n .buffer, o.kzalloc n .workingBuf⟩
      else none) ∧
    (∀ n file, (n, file) ∈ (initialise o).2.files ↔
      n ∈ o.onlineNodes ∧ o.kzalloc n .node = true ∧ o.classCreateFile n file = 0) ∧
    (initialise o).2.ipmiWatcher = true := by
  obtain ⟨entry, files, _, watcher⟩ := foldl_registerNode
    (fun nid member => (mem_onlineNodes.mp member).2 : ∀ nid ∈ o.onlineNodes, o.nodeOnline nid = true)
    { xstatNodes := fun _ => none, allocations := [], files := []
      classRegistered := decide (o.classRegister = 0), ipmiWatcher := true }
  refine ⟨rfl, entry, fun n file => (files n file).trans ?_, watcher⟩
  simp

/-- **Where nothing fails**, the nodes registered are those that the model of the running module starts
with, each with all its arrays. -/
theorem xstatNodes_of_initialised {o : InitOutcomes} (all : AllSucceed o) (nid : Nat) :
    (initialise o).2.xstatNodes nid =
      ((xstatInit o.maxNumnodes o.nodeOnline).xstatNodes nid).map fun _ => ⟨true, true, true⟩ := by
  have entry := (initialise_spec o).2.1 nid
  have model : (xstatInit o.maxNumnodes o.nodeOnline).xstatNodes nid =
      if nid < o.maxNumnodes ∧ o.nodeOnline nid then some (registerXstatNode nid) else none := rfl
  rw [entry, model]
  by_cases online : nid ∈ o.onlineNodes
  · rw [if_pos ⟨online, all.kzalloc nid online .node⟩, if_pos (mem_onlineNodes.mp online),
      all.kzalloc nid online .ctxs, all.kzalloc nid online .buffer, all.kzalloc nid online .workingBuf]
    rfl
  · rw [if_neg fun both => online both.1, if_neg fun both => online (mem_onlineNodes.mpr both)]
    rfl

end Xstats.Xstat
