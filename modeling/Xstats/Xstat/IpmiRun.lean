/-
**The IPMI readings of a run** (`ipmi_cnt.c`).

Each node samples every sensor group, one iteration of `xstat_ipmi_restart` after the other, while the
driver delivers responses to `xstat_ipmi_msg_handler` at any time and in any order: late, more than
once, never, of any length, and with pointers that lie in no entry of the group. The groups are shared
by all nodes. A request carries the address of its sensor's entry, and the handler finds the entry
again by that address alone.

* `IpmiInv.step`: the reading of a sensor is always that of the last valid response to a request made
  for it, and a sampled word is what `xstatIpmiRestart` makes of the readings its iterations found.
* `shown_readings`: what is printed under a sensor's name is what its own iteration found, and no
  response changes what another sensor reports.

`history` and the marks are ghosts: which responses were delivered, and how many of them before each
iteration read. The other counters of `roll_buffer`, and the removal of the driver's users by
`xstat_ipmi_exit`, have no place here.
-/

import Xstats.Lib.Transition
import Xstats.Xstat.Ipmi

namespace Xstats.Xstat

open BoundedText Bytes FlatJson Transition

/-! ### Groups, requests, responses -/

/-- `sizeof(struct ipmi_sensor_ctx)`: a configuration of twelve bytes, the reading, the padding. -/
def sizeofSensorCtx : Nat := 14

/-- A group of one to eight sensors, with the address of its `ctxs`. -/
structure IpmiGroup where
  ctx : IpmiSensorsCtx
  ctxsAddr : Nat
  nonempty : ctx.ctxs ≠ []
  few : ctx.nctxs ≤ 8
  nonNull : ctxsAddr ≠ 0

/-- `&ctx->ctxs[i]`. -/
def IpmiGroup.sensorAddr (group : IpmiGroup) (i : Nat) : Nat := group.ctxsAddr + sizeofSensorCtx * i

/-- The test of `xstat_ipmi_msg_handler` on the pointer of a message. -/
def IpmiGroup.holds (group : IpmiGroup) (userMsgData : Nat) : Bool :=
  decide (userMsgData ≠ 0 ∧ group.ctxsAddr ≤ userMsgData ∧
    userMsgData < group.ctxsAddr + sizeofSensorCtx * group.ctx.nctxs)

/-- What `ipmi_request_settime` is given. `sensor` is a ghost: the entry the request is made for. -/
structure IpmiRequest where
  msgid : BitVec 32
  netfn : Byte
  cmd : Byte
  data : List Byte
  userMsgData : Nat
  sensor : Nat
  deriving DecidableEq, Repr

/-- The request for entry `i`. -/
def IpmiGroup.request (group : IpmiGroup) (msgid : BitVec 32) (i : Nat)
    (config : IpmiSensorConfig) : IpmiRequest :=
  { msgid, netfn := 0x04, cmd := 0x2d, data := [config.sensorNumber]
    userMsgData := group.sensorAddr i, sensor := i }

/-- `xstat_ipmi_msg_handler`: the readings it leaves. The pointers of the group it is given are those
of entries; the index is that of the entry. -/
def xstatIpmiMsgHandler (group : IpmiGroup) (reading : Nat → Byte) (userMsgData : Nat)
    (data : List Byte) : Nat → Byte :=
  if group.holds userMsgData then
    if data.length > 2 then
      Function.update reading ((userMsgData - group.ctxsAddr) / sizeofSensorCtx) (data.getD 1 0)
    else reading
  else reading

theorem holds_sensorAddr (group : IpmiGroup) {i : Nat} (inside : i < group.ctx.nctxs) :
    group.holds (group.sensorAddr i) = true := by
  have nonNull := group.nonNull
  rw [IpmiGroup.holds, decide_eq_true_iff]
  unfold IpmiGroup.sensorAddr sizeofSensorCtx
  omega

/-- A response to a request for entry `i` changes that entry, if it is long enough. -/
theorem xstatIpmiMsgHandler_sensorAddr (group : IpmiGroup) (reading : Nat → Byte) {i : Nat}
    (inside : i < group.ctx.nctxs) (data : List Byte) :
    xstatIpmiMsgHandler group reading (group.sensorAddr i) data =
      if data.length > 2 then Function.update reading i (data.getD 1 0) else reading := by
  have entry : (group.sensorAddr i - group.ctxsAddr) / sizeofSensorCtx = i := by
    rw [IpmiGroup.sensorAddr, Nat.add_sub_cancel_left]
    exact Nat.mul_div_cancel_left i (by decide)
  rw [xstatIpmiMsgHandler, if_pos (holds_sensorAddr group inside), entry]

/-- Any other message changes nothing. -/
theorem xstatIpmiMsgHandler_outside {group : IpmiGroup} {userMsgData : Nat}
    (outside : group.holds userMsgData = false) (reading : Nat → Byte) (data : List Byte) :
    xstatIpmiMsgHandler group reading userMsgData data = reading := by
  rw [xstatIpmiMsgHandler, outside]
  rfl

/-! ### State -/

/-- Where a node is in its pass over the groups. -/
inductive IpmiPc (n : Nat)
  | idle
  /-- Before the restart of group `g`, or, after the last group, before the commit. -/
  | counter (g : Nat)
  /-- In `xstat_ipmi_restart`, with `k` iterations to go. -/
  | loop (g : Fin n) (user : Bool) (k : Nat)
  /-- In iteration `i`, after the request. -/
  | read (g : Fin n) (user : Bool) (i : Nat)
  deriving DecidableEq, Repr

/-- A delivery to the handler of a group: the entry that the request it answers was made for, if it
answers one. -/
structure Delivery (n : Nat) where
  group : Fin n
  sensor : Option Nat
  data : List Byte
  deriving DecidableEq, Repr

/-- The words of a sample, and how many deliveries preceded each iteration's read. -/
structure IpmiSample (n : Nat) where
  word : Fin n → Word
  mark : Fin n → Nat → Nat

/-- The mark of iteration `i` of group `g` set. -/
def IpmiSample.setMark {n : Nat} (sample : IpmiSample n) (g : Fin n) (i mark : Nat) :
    IpmiSample n :=
  { sample with mark := Function.update sample.mark g (Function.update (sample.mark g) i mark) }

/-- The word of group `g` set. -/
def IpmiSample.setWord {n : Nat} (sample : IpmiSample n) (g : Fin n) (word : Word) : IpmiSample n :=
  { sample with word := Function.update sample.word g word }

/-- A node: its place, the `ret` of its `xstat_ipmi_restart`, and its `working_buf`. -/
structure IpmiNode (n : Nat) where
  pc : IpmiPc n
  ret : Word
  sample : IpmiSample n

/-- The groups' variables, the nodes, the requests that were sent, and the ghosts. -/
structure IpmiState (n : Nat) where
  user : Fin n → Bool
  msgid : Fin n → BitVec 32
  reading : Fin n → Nat → Byte
  nodes : Nat → IpmiNode n
  sent : Fin n → List IpmiRequest
  history : List (Delivery n)
  records : List (IpmiSample n)

/-- The state before the first BMC is registered. -/
def IpmiState.start (n : Nat) : IpmiState n :=
  { user := fun _ => false, msgid := fun _ => 0, reading := fun _ _ => 0
    nodes := fun _ => ⟨.idle, 0, ⟨fun _ => 0, fun _ _ => 0⟩⟩
    sent := fun _ => [], history := [], records := [] }

inductive IpmiAction (n : Nat)
  /-- `xstat_register_bmc`; `created` says which calls of `ipmi_create_user` succeed. -/
  | registerBmc (created : Fin n → Bool)
  /-- A node begins a pass. -/
  | rollBuffer (nid : Nat)
  /-- The next step of a node's pass; `accepted` says whether `ipmi_request_settime` succeeds. -/
  | node (nid : Nat) (accepted : Bool)
  /-- A response to request `k` of group `g`. -/
  | response (g : Fin n) (k : Nat) (data : List Byte)
  /-- A message whose pointer lies outside the group. -/
  | stray (g : Fin n) (userMsgData : Nat) (data : List Byte)
  deriving DecidableEq

namespace IpmiState

variable {n : Nat}

/-- A node replaced. -/
def setNode (s : IpmiState n) (nid : Nat) (node : IpmiNode n) : IpmiState n :=
  { s with nodes := Function.update s.nodes nid node }

/-- The request of iteration `i`. -/
def sendRequest (s : IpmiState n) (groups : Fin n → IpmiGroup) (g : Fin n) (i : Nat)
    (config : IpmiSensorConfig) (accepted : Bool) : IpmiState n :=
  { s with
    msgid := Function.update s.msgid g (s.msgid g + 1)
    sent := if accepted then
        Function.update s.sent g (s.sent g ++ [(groups g).request (s.msgid g) i config])
      else s.sent }

/-- A call of the handler. -/
def receive (s : IpmiState n) (groups : Fin n → IpmiGroup) (g : Fin n) (userMsgData : Nat)
    (data : List Byte) (sensor : Option Nat) : IpmiState n :=
  { s with
    reading := Function.update s.reading g
      (xstatIpmiMsgHandler (groups g) (s.reading g) userMsgData data)
    history := s.history ++ [⟨g, sensor, data⟩] }

/-- A step of a node's pass. -/
def stepNode (s : IpmiState n) (groups : Fin n → IpmiGroup) (nid : Nat) (accepted : Bool) :
    Option (IpmiState n) :=
  let node := s.nodes nid
  match node.pc with
  | .idle => none
  | .counter g =>
    if inside : g < n then
      some (s.setNode nid { node with
        pc := .loop ⟨g, inside⟩ (s.user ⟨g, inside⟩) (groups ⟨g, inside⟩).ctx.nctxs, ret := 0 })
    else some { s.setNode nid { node with pc := .idle } with records := s.records ++ [node.sample] }
  | .loop g _ 0 =>
    some (s.setNode nid { node with
      pc := .counter (g + 1), sample := node.sample.setWord g node.ret })
  | .loop g user (i + 1) =>
    (groups g).ctx.ctxs[i]?.map fun config =>
      (if user then s.sendRequest groups g i config accepted else s).setNode nid
        { node with pc := .read g user i }
  | .read g user i =>
    some (s.setNode nid
      { pc := .loop g user i
        ret := xstatIpmiRestartIter (groups g).ctx.nctxs i node.ret (s.reading g i)
        sample := node.sample.setMark g i s.history.length })

/-- The step function. -/
def step (groups : Fin n → IpmiGroup) (s : IpmiState n) : IpmiAction n → Option (IpmiState n)
  | .registerBmc created => some { s with user := fun g => s.user g || created g }
  | .rollBuffer nid =>
    if (s.nodes nid).pc = .idle then some (s.setNode nid { s.nodes nid with pc := .counter 0 })
    else none
  | .node nid accepted => s.stepNode groups nid accepted
  | .response g k data =>
    (s.sent g)[k]?.map fun request =>
      s.receive groups g request.userMsgData data (some request.sensor)
  | .stray g userMsgData data =>
    if (groups g).holds userMsgData then none
    else some (s.receive groups g userMsgData data none)

/-- The steps, one constructor for each. -/
inductive Move (groups : Fin n → IpmiGroup) (s : IpmiState n) : IpmiAction n → IpmiState n → Prop
  | registers {created} :
      Move groups s (.registerBmc created) { s with user := fun g => s.user g || created g }
  | begins {nid} (here : (s.nodes nid).pc = .idle) :
      Move groups s (.rollBuffer nid) (s.setNode nid { s.nodes nid with pc := .counter 0 })
  | enters {nid accepted} {g : Fin n} (here : (s.nodes nid).pc = .counter g) :
      Move groups s (.node nid accepted) (s.setNode nid { s.nodes nid with
        pc := .loop g (s.user g) (groups g).ctx.nctxs, ret := 0 })
  | commits {nid accepted g} (here : (s.nodes nid).pc = .counter g) (beyond : n ≤ g) :
      Move groups s (.node nid accepted)
        { s.setNode nid { s.nodes nid with pc := .idle } with
          records := s.records ++ [(s.nodes nid).sample] }
  | leaves {nid accepted g user} (here : (s.nodes nid).pc = .loop g user 0) :
      Move groups s (.node nid accepted) (s.setNode nid { s.nodes nid with
        pc := .counter (g + 1), sample := (s.nodes nid).sample.setWord g (s.nodes nid).ret })
  | passes {nid accepted g user i config} (here : (s.nodes nid).pc = .loop g user (i + 1))
      (entry : (groups g).ctx.ctxs[i]? = some config) (off : user = false) :
      Move groups s (.node nid accepted)
        (s.setNode nid { s.nodes nid with pc := .read g user i })
  | requests {nid accepted g user i config} (here : (s.nodes nid).pc = .loop g user (i + 1))
      (entry : (groups g).ctx.ctxs[i]? = some config) (on : user = true) :
      Move groups s (.node nid accepted)
        ((s.sendRequest groups g i config accepted).setNode nid
          { s.nodes nid with pc := .read g user i })
  | reads {nid accepted g user i} (here : (s.nodes nid).pc = .read g user i) :
      Move groups s (.node nid accepted) (s.setNode nid
        { pc := .loop g user i
          ret := xstatIpmiRestartIter (groups g).ctx.nctxs i (s.nodes nid).ret (s.reading g i)
          sample := (s.nodes nid).sample.setMark g i s.history.length })
  | response {g k data request} (sent : (s.sent g)[k]? = some request) :
      Move groups s (.response g k data)
        (s.receive groups g request.userMsgData data (some request.sensor))
  | stray {g userMsgData data} (outside : (groups g).holds userMsgData = false) :
      Move groups s (.stray g userMsgData data) (s.receive groups g userMsgData data none)

theorem move_of_stepNode {groups : Fin n → IpmiGroup} {s s' : IpmiState n} {nid : Nat}
    {accepted : Bool} (taken : s.stepNode groups nid accepted = some s') :
    Move groups s (.node nid accepted) s' := by
  unfold stepNode at taken
  cases here : (s.nodes nid).pc with
  | idle =>
    simp only [here] at taken
    cases taken
  | counter g =>
    simp only [here] at taken
    by_cases inside : g < n
    · rw [dif_pos inside] at taken
      cases taken
      exact .enters here
    · rw [dif_neg inside] at taken
      cases taken
      exact .commits here (Nat.le_of_not_lt inside)
  | loop g user k =>
    cases k with
    | zero =>
      simp only [here] at taken
      cases taken
      exact .leaves here
    | succ i =>
      simp only [here] at taken
      obtain ⟨config, entry, rfl⟩ := Option.map_eq_some_iff.mp taken
      cases user with
      | true => exact .requests here entry rfl
      | false => exact .passes here entry rfl
  | read g user i =>
    simp only [here] at taken
    cases taken
    exact .reads here

theorem move_of_step {groups : Fin n → IpmiGroup} {s s' : IpmiState n} {a : IpmiAction n}
    (taken : s.step groups a = some s') : Move groups s a s' := by
  cases a with
  | registerBmc created =>
    cases taken
    exact .registers
  | rollBuffer nid =>
    obtain ⟨here, step⟩ := Option.ite_none_right_eq_some.mp taken
    cases step
    exact .begins here
  | node nid accepted => exact move_of_stepNode taken
  | response g k data =>
    obtain ⟨request, sent, rfl⟩ := Option.map_eq_some_iff.mp taken
    exact .response sent
  | stray g userMsgData data =>
    obtain ⟨outside, step⟩ := Option.ite_none_left_eq_some.mp taken
    cases step
    exact .stray (Bool.eq_false_iff.mpr outside)

end IpmiState

/-! ### What a sensor should report -/

/-- A response to a request made for sensor `i` of group `g`, long enough to carry a reading. -/
def Delivery.valid {n : Nat} (g : Fin n) (i : Nat) (delivery : Delivery n) : Bool :=
  delivery.group = g && delivery.sensor = some i && delivery.data.length > 2

/-- Byte `data[1]` of the last valid response for sensor `i`, or `0`. -/
def lastReading {n : Nat} (history : List (Delivery n)) (g : Fin n) (i : Nat) : Byte :=
  ((history.filter (Delivery.valid g i)).getLast?.map fun delivery => delivery.data.getD 1 0).getD 0

theorem lastReading_append {n : Nat} (history : List (Delivery n)) (delivery : Delivery n)
    (g : Fin n) (i : Nat) :
    lastReading (history ++ [delivery]) g i =
      if delivery.valid g i then delivery.data.getD 1 0 else lastReading history g i := by
  unfold lastReading
  by_cases mine : delivery.valid g i = true
  · simp [List.filter_append, mine]
  · simp [List.filter_append, mine]

/-- What the iterations of a sample found. -/
def IpmiSample.found {n : Nat} (sample : IpmiSample n) (history : List (Delivery n)) (g : Fin n)
    (i : Nat) : Byte :=
  lastReading (history.take (sample.mark g i)) g i

/-- Every mark lies within the history. -/
def IpmiSample.Marked {n : Nat} (sample : IpmiSample n) (length : Nat) : Prop :=
  ∀ g i, sample.mark g i ≤ length

theorem IpmiSample.found_append {n : Nat} {sample : IpmiSample n} {history : List (Delivery n)}
    (marked : sample.Marked history.length) (more : List (Delivery n)) :
    sample.found (history ++ more) = sample.found history := by
  funext g i
  rw [found, found, List.take_append_of_le_length (marked g i)]

/-! ### The invariant -/

namespace IpmiState

variable {n : Nat} {groups : Fin n → IpmiGroup} {s s' : IpmiState n}

/-- What the words and `ret` of a node hold where it is, if its iterations find `found`. -/
def Packed (groups : Fin n → IpmiGroup) (found : Fin n → Nat → Byte) (word : Fin n → Word)
    (ret : Word) : IpmiPc n → Prop
  | .idle => True
  | .counter g => ∀ h : Fin n, h.val < g → word h = xstatIpmiRestart (groups h).ctx (found h)
  | .loop g _ k =>
    (∀ h : Fin n, h.val < g → word h = xstatIpmiRestart (groups h).ctx (found h)) ∧
      LoopsTo (groups g).ctx.nctxs (found g) k ret
  | .read g _ i =>
    (∀ h : Fin n, h.val < g → word h = xstatIpmiRestart (groups h).ctx (found h)) ∧
      LoopsTo (groups g).ctx.nctxs (found g) (i + 1) ret

/-- A node's own part of the invariant. -/
structure NodeInv (groups : Fin n → IpmiGroup) (history : List (Delivery n)) (node : IpmiNode n) :
    Prop where
  marked : node.sample.Marked history.length
  packed : Packed groups (node.sample.found history) node.sample.word node.ret node.pc

/-- The requests, the readings, the nodes and the records. -/
structure IpmiInv (groups : Fin n → IpmiGroup) (s : IpmiState n) : Prop where
  sent : ∀ g, ∀ request ∈ s.sent g, ∃ config, (groups g).ctx.ctxs[request.sensor]? = some config ∧
    request.userMsgData = (groups g).sensorAddr request.sensor ∧
      request.data = [config.sensorNumber]
  reading : ∀ g i, s.reading g i = lastReading s.history g i
  node : ∀ nid, NodeInv groups s.history (s.nodes nid)
  record : ∀ sample ∈ s.records, sample.Marked s.history.length ∧
    ∀ g, sample.word g = xstatIpmiRestart (groups g).ctx (sample.found s.history g)

theorem ipmiInv_start (groups : Fin n → IpmiGroup) : IpmiInv groups (start n) := by
  constructor
  case sent => exact fun _ _ member => by cases member
  case reading => exact fun _ _ => rfl
  case node => exact fun _ => ⟨fun _ _ => le_rfl, trivial⟩
  case record => exact fun _ member => by cases member

/-- Steps that change only one node, and its own part of the invariant at most. -/
theorem IpmiInv.setNode (inv : IpmiInv groups s) (nid : Nat) {node : IpmiNode n}
    (mine : NodeInv groups s.history node) : IpmiInv groups (s.setNode nid node) := by
  refine ⟨inv.sent, inv.reading, fun other => ?_, inv.record⟩
  change NodeInv groups s.history (Function.update s.nodes nid node other)
  by_cases same : other = nid
  · rw [same, Function.update_self]
    exact mine
  · rw [Function.update_of_ne same]
    exact inv.node other

/-- More deliveries change nothing of what a node has found. -/
theorem NodeInv.append {history : List (Delivery n)} {node : IpmiNode n}
    (inv : NodeInv groups history node) (more : List (Delivery n)) :
    NodeInv groups (history ++ more) node := by
  constructor
  case marked =>
    intro g i
    exact (inv.marked g i).trans (by simp)
  case packed =>
    rw [IpmiSample.found_append inv.marked]
    exact inv.packed

/-- A call of the handler that keeps the readings in step with the history. -/
theorem IpmiInv.receive (inv : IpmiInv groups s) {g : Fin n} {userMsgData : Nat} {data : List Byte}
    {sensor : Option Nat}
    (reading : ∀ i, xstatIpmiMsgHandler (groups g) (s.reading g) userMsgData data i =
      if sensor = some i ∧ data.length > 2 then data.getD 1 0 else s.reading g i) :
    IpmiInv groups (s.receive groups g userMsgData data sensor) := by
  constructor
  case sent => exact inv.sent
  case reading =>
    intro h i
    change Function.update s.reading g _ h i = lastReading (s.history ++ [_]) h i
    rw [lastReading_append]
    by_cases same : h = g
    · subst same
      rw [Function.update_self, reading, inv.reading]
      simp [Delivery.valid]
    · rw [Function.update_of_ne same, inv.reading]
      simp [Delivery.valid, Ne.symm same]
  case node => exact fun nid => (inv.node nid).append _
  case record =>
    intro sample member
    obtain ⟨marked, word⟩ := inv.record sample member
    refine ⟨fun g i => (marked g i).trans (by simp [IpmiState.receive]), fun g => ?_⟩
    change sample.word g = xstatIpmiRestart _ (sample.found (s.history ++ [_]) g)
    rw [IpmiSample.found_append marked]
    exact word g

/-- What the iterations of a sample found after iteration `i` of group `g` has read. -/
theorem found_setMark (sample : IpmiSample n) (history : List (Delivery n)) (g : Fin n) (i : Nat) :
    (sample.setMark g i history.length).found history =
      Function.update (sample.found history) g
        (Function.update (sample.found history g) i (lastReading history g i)) := by
  funext h k
  by_cases same : h = g
  · subst same
    by_cases here : k = i
    · subst here
      simp [IpmiSample.found, IpmiSample.setMark]
    · simp [IpmiSample.found, IpmiSample.setMark, here]
  · simp [IpmiSample.found, IpmiSample.setMark, same]

/-- Iteration `i` of the loop reads its sensor. -/
theorem NodeInv.read {history : List (Delivery n)} {node : IpmiNode n} {g : Fin n} {user : Bool}
    {i : Nat} (inv : NodeInv groups history node) (here : node.pc = .read g user i) :
    NodeInv groups history
      { pc := .loop g user i
        ret := xstatIpmiRestartIter (groups g).ctx.nctxs i node.ret (lastReading history g i)
        sample := node.sample.setMark g i history.length } := by
  have packed := inv.packed
  rw [here] at packed
  obtain ⟨earlier, later⟩ := packed
  constructor
  case marked =>
    intro h k
    change Function.update node.sample.mark g _ h k ≤ _
    by_cases same : h = g
    · subst same
      rw [Function.update_self]
      by_cases mine : k = i
      · rw [mine, Function.update_self]
      · rw [Function.update_of_ne mine]
        exact inv.marked h k
    · rw [Function.update_of_ne same]
      exact inv.marked h k
  case packed =>
    rw [found_setMark]
    refine ⟨fun h below => ?_, ?_⟩
    · rw [Function.update_of_ne (Fin.ne_of_lt below)]
      exact earlier h below
    · rw [Function.update_self]
      have next : LoopsTo (groups g).ctx.nctxs
          (Function.update (node.sample.found history g) i (lastReading history g i)) i _ :=
        later.iter fun k above => Function.update_of_ne above.ne' _ _
      rwa [Function.update_self] at next

/-- The end of the loop stores the word. -/
theorem NodeInv.leave {history : List (Delivery n)} {node : IpmiNode n} {g : Fin n} {user : Bool}
    (inv : NodeInv groups history node) (here : node.pc = .loop g user 0) :
    NodeInv groups history
      { node with pc := .counter (g + 1), sample := node.sample.setWord g node.ret } := by
  have packed := inv.packed
  rw [here] at packed
  obtain ⟨earlier, whole⟩ := packed
  refine ⟨inv.marked, fun h below => ?_⟩
  change Function.update node.sample.word g _ h = _
  by_cases same : h = g
  · subst same
    rw [Function.update_self]
    exact whole.word
  · rw [Function.update_of_ne same]
    exact earlier h (by omega)

/-- A request is made for the entry whose address it carries. -/
theorem IpmiInv.sendRequest (inv : IpmiInv groups s) {g : Fin n} {i : Nat}
    {config : IpmiSensorConfig} (entry : (groups g).ctx.ctxs[i]? = some config) (accepted : Bool) :
    IpmiInv groups (s.sendRequest groups g i config accepted) := by
  refine ⟨?_, inv.reading, inv.node, inv.record⟩
  cases accepted with
  | false => exact inv.sent
  | true =>
    intro h request member
    change request ∈ Function.update s.sent g _ h at member
    by_cases same : h = g
    · subst same
      rw [Function.update_self, List.mem_append, List.mem_singleton] at member
      rcases member with old | rfl
      · exact inv.sent h request old
      · exact ⟨config, entry, rfl, rfl⟩
    · rw [Function.update_of_ne same] at member
      exact inv.sent h request member

/-- A response to a request changes the reading of the sensor it was made for, if it is valid. -/
theorem IpmiInv.reading_response (inv : IpmiInv groups s) {g : Fin n} {request : IpmiRequest}
    (sent : request ∈ s.sent g) (data : List Byte) (i : Nat) :
    xstatIpmiMsgHandler (groups g) (s.reading g) request.userMsgData data i =
      if some request.sensor = some i ∧ data.length > 2 then data.getD 1 0 else s.reading g i := by
  obtain ⟨config, entry, address, _⟩ := inv.sent g request sent
  have inside : request.sensor < (groups g).ctx.nctxs :=
    (List.getElem?_eq_some_iff.mp entry).1
  rw [address, xstatIpmiMsgHandler_sensorAddr _ _ inside]
  by_cases long : data.length > 2
  · by_cases mine : i = request.sensor
    · subst mine
      simp [long]
    · simp [long, mine, Ne.symm mine]
  · simp [long]

theorem IpmiInv.step {a : IpmiAction n} (inv : IpmiInv groups s)
    (taken : s.step groups a = some s') : IpmiInv groups s' := by
  cases move_of_step taken with
  | registers => exact ⟨inv.sent, inv.reading, inv.node, inv.record⟩
  | begins => exact inv.setNode _ ⟨(inv.node _).marked, fun _ below => absurd below (Nat.not_lt_zero _)⟩
  | @enters nid _ g here =>
    have packed := (inv.node nid).packed
    rw [here] at packed
    exact inv.setNode nid ⟨(inv.node nid).marked, packed, loopsTo_start _ _⟩
  | @commits nid _ g here beyond =>
    have packed := (inv.node nid).packed
    rw [here] at packed
    have after : IpmiInv groups (s.setNode nid { s.nodes nid with pc := .idle }) :=
      inv.setNode nid ⟨(inv.node nid).marked, trivial⟩
    refine ⟨after.sent, after.reading, after.node, fun sample member => ?_⟩
    rcases List.mem_append.mp member with old | new
    · exact inv.record sample old
    · rw [List.mem_singleton] at new
      subst new
      exact ⟨(inv.node nid).marked, fun h => packed h (by omega)⟩
  | @leaves nid _ _ _ here => exact inv.setNode nid ((inv.node nid).leave here)
  | @passes nid _ g _ i _ here entry =>
    have packed := (inv.node nid).packed
    rw [here] at packed
    exact inv.setNode nid ⟨(inv.node nid).marked, packed⟩
  | @requests nid accepted g _ i _ here entry =>
    have packed := (inv.node nid).packed
    rw [here] at packed
    exact (inv.sendRequest entry accepted).setNode nid ⟨(inv.node nid).marked, packed⟩
  | @reads nid _ g _ i here =>
    rw [inv.reading g i]
    exact inv.setNode nid ((inv.node nid).read here)
  | response sent => exact inv.receive (inv.reading_response (List.mem_of_getElem? sent) _)
  | stray outside =>
    refine inv.receive fun i => ?_
    rw [xstatIpmiMsgHandler_outside outside]
    simp

/-! ### What is printed -/

/-- A committed word prints what its iterations found. -/
theorem IpmiInv.text (inv : IpmiInv groups s) {sample : IpmiSample n} (member : sample ∈ s.records)
    (g : Fin n) (limit : Int) :
    xstatIpmiScnprintf (groups g).ctx limit (sample.word g) =
      scnprintf limit (renderMembers ((groups g).ctx.ctxs.mapIdx fun i config =>
        (config.name.toList, config.value (sample.found s.history g i)))) := by
  have same : (groups g).ctx.members (sample.word g) = (groups g).ctx.ctxs.mapIdx fun i config =>
      (config.name.toList, config.value (sample.found s.history g i)) := by
    refine List.mapIdx_eq_mapIdx_iff.mpr fun i inside => ?_
    rw [(inv.record sample member).2 g, byteAt_xstatIpmiRestart (groups g).few _ inside]
  rw [xstatIpmiScnprintf_eq (groups g).nonempty, same]

/-- **Readings reach the right label.** However many nodes sample the groups, and however requests,
responses and stray messages interleave: in a committed sample the value under a sensor's name is
`(r + base) * mul`, where `r` is `data[1]` of the last valid response to a request made for that
sensor, among the deliveries that preceded the read of its own iteration, and `0` if there was none. A
response to a request for one sensor changes what no other reports, and neither a short response nor a
stray message changes any. -/
theorem shown_readings {trace : List (IpmiState n × IpmiAction n)}
    (run : Run (IpmiState.step groups) (start n) trace s) :
    (∀ sample ∈ s.records, ∀ g limit,
      xstatIpmiScnprintf (groups g).ctx limit (sample.word g) =
        scnprintf limit (renderMembers ((groups g).ctx.ctxs.mapIdx fun i config =>
          (config.name.toList,
            config.value (lastReading (s.history.take (sample.mark g i)) g i))))) ∧
    (∀ g k data request s', (s.sent g)[k]? = some request →
      s.step groups (.response g k data) = some s' →
        ∀ h i, h ≠ g ∨ i ≠ request.sensor ∨ data.length ≤ 2 → s'.reading h i = s.reading h i) ∧
    ∀ g userMsgData data s', s.step groups (.stray g userMsgData data) = some s' →
      s'.reading = s.reading := by
  have inv : IpmiInv groups s := run.invariant (fun _ _ => True) (ipmiInv_start groups)
    (fun _ _ _ before _ taken => before.step taken) fun _ _ => trivial
  refine ⟨fun sample member g limit => inv.text member g limit, ?_, ?_⟩
  · intro g k data request s' sent taken h i other
    simp only [IpmiState.step, sent, Option.map_some, Option.some.injEq] at taken
    subst taken
    change Function.update s.reading g _ h i = s.reading h i
    by_cases same : h = g
    · subst same
      rw [Function.update_self, inv.reading_response (List.mem_of_getElem? sent), if_neg]
      rintro ⟨mine, long⟩
      rcases other with different | different | short
      · exact different rfl
      · exact different (Option.some.inj mine).symm
      · omega
    · rw [Function.update_of_ne same]
  · intro g userMsgData data s' taken
    cases move_of_step taken with
    | stray outside =>
      change Function.update s.reading g _ = _
      rw [xstatIpmiMsgHandler_outside outside, Function.update_eq_self]

/-- The temperatures and the power, as the only group. -/
def miscGroup : Fin 1 → IpmiGroup := fun _ =>
  { ctx := chamMiscCtx, ctxsAddr := 0x1000, nonempty := by decide, few := by decide
    nonNull := by decide }

/-- The first node samples, and the requests go out. Their responses come in another order, one of them
too short, and a stray message with them. Then the second node samples. -/
def reordered : List (IpmiAction 1) :=
  .registerBmc (fun _ => true) :: .rollBuffer 0 :: List.replicate 13 (.node 0 true) ++
    [.response 0 4 [0, 150, 0], .response 0 3 [0, 9], .stray 0 0x2000 [0, 1, 0],
      .response 0 0 [0, 7, 0]] ++ .rollBuffer 1 :: List.replicate 13 (.node 1 true)

theorem shown_readings_reordered :
    ∃ trace s sample, Run (IpmiState.step miscGroup) (start 1) trace s ∧ sample ∈ s.records ∧
      trace.map Prod.snd = reordered ∧
      scnprintf 4096 (renderMembers (chamMiscCtx.ctxs.mapIdx fun i config =>
        (config.name.toList, config.value (lastReading (s.history.take (sample.mark 0 i)) 0 i)))) =
        "\"tinlet\":22,\"toutlet\":-128,\"tp0\":-128,\"tp1\":-128,\"totpwr\":98".toList := by
  have done : (exec (IpmiState.step miscGroup) (start 1) reordered).any fun s =>
      s.records[1]?.any fun sample => xstatIpmiScnprintf chamMiscCtx 4096 (sample.word 0) ==
        "\"tinlet\":22,\"toutlet\":-128,\"tp0\":-128,\"tp1\":-128,\"totpwr\":98".toList := by
    decide +kernel
  obtain ⟨trace, s, run, same, passed⟩ := run_of_exec_any done
  obtain ⟨sample, there, text⟩ := (Option.any_eq_true _ _).mp passed
  have member := List.mem_of_getElem? there
  exact ⟨trace, s, sample, run, member, same,
    ((shown_readings run).1 sample member 0 4096).symm.trans (eq_of_beq text)⟩

end IpmiState

end Xstats.Xstat
