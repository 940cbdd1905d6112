/-
**Which label a physical sensor reaches** (`ipmi_cnt.c`, the Chameleon configuration).

Two runs of the same schedule, in which the BMC answers alike except for the requests for one sensor
number, print records that differ at the labels of that number only. The tables give every number but
one to a single label: `Fan6A` and `Fan6B` both ask for sensor 58, and no label asks for 59.

* `Alike.step`: related steps of the two runs keep them alike.
* `labelsApart_iff`: at most one label shows different values, exactly if the number is not 58.
-/

import Xstats.Xstat.IpmiRun
import Xstats.Xstat.StatText

namespace Xstats.Xstat

open BoundedText Bytes FlatJson Transition

namespace IpmiState

variable {n : Nat}

/-! ### Two runs -/

/-- Two actions of one schedule: the same action, or two answers to the same request for sensor
`number`, which the BMC may answer differently. -/
inductive SameButFor (number : Byte) (s : IpmiState n) :
    IpmiAction n → IpmiAction n → Prop
  | same (a : IpmiAction n) : SameButFor number s a a
  | answer {g k request} (data data' : List Byte) (sent : (s.sent g)[k]? = some request)
      (asked : request.data = [number]) :
      SameButFor number s (.response g k data) (.response g k data')

/-- Two deliveries: the same, or two for an entry that asks for sensor `number`. -/
inductive AlikeDelivery (groups : Fin n → IpmiGroup) (number : Byte) :
    Delivery n → Delivery n → Prop
  | same (delivery : Delivery n) : AlikeDelivery groups number delivery delivery
  | answer {g i config} (data data' : List Byte) (entry : (groups g).ctx.ctxs[i]? = some config)
      (asks : config.sensorNumber = number) :
      AlikeDelivery groups number ⟨g, some i, data⟩ ⟨g, some i, data'⟩

/-- What two such runs have in common. -/
structure Alike (groups : Fin n → IpmiGroup) (number : Byte) (s t : IpmiState n) : Prop where
  user : t.user = s.user
  msgid : t.msgid = s.msgid
  sent : t.sent = s.sent
  pc : ∀ nid, (t.nodes nid).pc = (s.nodes nid).pc
  mark : ∀ nid, (t.nodes nid).sample.mark = (s.nodes nid).sample.mark
  history : List.Forall₂ (AlikeDelivery groups number) s.history t.history
  records : List.Forall₂ (fun sample sample' => sample'.mark = sample.mark) s.records t.records

variable {groups : Fin n → IpmiGroup} {number : Byte} {s t s' t' : IpmiState n}

theorem alike_start (groups : Fin n → IpmiGroup) (number : Byte) :
    Alike groups number (start n) (start n) :=
  ⟨rfl, rfl, rfl, fun _ => rfl, fun _ => rfl, .nil, .nil⟩

/-- The same node is replaced in both runs. -/
theorem Alike.setNode (alike : Alike groups number s t) (nid : Nat) {node node' : IpmiNode n}
    (pc : node'.pc = node.pc) (mark : node'.sample.mark = node.sample.mark) :
    Alike groups number (s.setNode nid node) (t.setNode nid node') := by
  refine ⟨alike.user, alike.msgid, alike.sent, fun other => ?_, fun other => ?_, alike.history,
    alike.records⟩
  · change (Function.update t.nodes nid node' other).pc = (Function.update s.nodes nid node other).pc
    by_cases same : other = nid
    · rw [same, Function.update_self, Function.update_self, pc]
    · rw [Function.update_of_ne same, Function.update_of_ne same, alike.pc]
  · change (Function.update t.nodes nid node' other).sample.mark =
      (Function.update s.nodes nid node other).sample.mark
    by_cases same : other = nid
    · rw [same, Function.update_self, Function.update_self, mark]
    · rw [Function.update_of_ne same, Function.update_of_ne same, alike.mark]

theorem Alike.sendRequest (alike : Alike groups number s t) (g : Fin n) (i : Nat)
    (config : IpmiSensorConfig) (accepted : Bool) :
    Alike groups number (s.sendRequest groups g i config accepted)
      (t.sendRequest groups g i config accepted) := by
  refine ⟨alike.user, ?_, ?_, alike.pc, alike.mark, alike.history, alike.records⟩
  · simp only [IpmiState.sendRequest, alike.msgid]
  · simp only [IpmiState.sendRequest, alike.sent, alike.msgid]

theorem Alike.receive (alike : Alike groups number s t) {g : Fin n} {userMsgData userMsgData' : Nat}
    {data data' : List Byte} {sensor sensor' : Option Nat}
    (delivery : AlikeDelivery groups number ⟨g, sensor, data⟩ ⟨g, sensor', data'⟩) :
    Alike groups number (s.receive groups g userMsgData data sensor)
      (t.receive groups g userMsgData' data' sensor') :=
  ⟨alike.user, alike.msgid, alike.sent, alike.pc, alike.mark,
    List.rel_append alike.history (.cons delivery .nil), alike.records⟩

/-- The same step of a node in both runs. -/
theorem Alike.stepNode (alike : Alike groups number s t) {nid : Nat} {accepted : Bool}
    (taken : s.stepNode groups nid accepted = some s')
    (taken' : t.stepNode groups nid accepted = some t') : Alike groups number s' t' := by
  have lengths : t.history.length = s.history.length := alike.history.length_eq.symm
  have mark := alike.mark nid
  have same := alike.pc nid
  have sameUser := alike.user
  cases move_of_stepNode taken with
  | @enters _ _ g here =>
    simp only [IpmiState.stepNode, same.trans here, g.isLt, dif_pos, Option.some.injEq] at taken'
    subst taken'
    exact alike.setNode nid (by rw [sameUser]) mark
  | @commits _ _ g here beyond =>
    simp only [IpmiState.stepNode, same.trans here, Nat.not_lt.mpr beyond, dif_neg, not_false_eq_true,
      Option.some.injEq] at taken'
    subst taken'
    have after : Alike groups number (s.setNode nid { s.nodes nid with pc := .idle })
        (t.setNode nid { t.nodes nid with pc := .idle }) := alike.setNode nid rfl mark
    exact ⟨after.user, after.msgid, after.sent, after.pc, after.mark, after.history,
      List.rel_append alike.records (.cons mark .nil)⟩
  | leaves here =>
    simp only [IpmiState.stepNode, same.trans here, Option.some.injEq] at taken'
    subst taken'
    exact alike.setNode nid rfl mark
  | @passes _ _ g user i config here entry off =>
    subst off
    simp only [IpmiState.stepNode, same.trans here, entry, Option.map_some,
      Option.some.injEq] at taken'
    subst taken'
    exact alike.setNode nid rfl mark
  | @requests _ _ g user i config here entry on =>
    subst on
    simp only [IpmiState.stepNode, same.trans here, entry, Option.map_some, if_true,
      Option.some.injEq] at taken'
    subst taken'
    exact (alike.sendRequest g i config accepted).setNode nid rfl mark
  | @reads _ _ g _ i here =>
    simp only [IpmiState.stepNode, same.trans here, Option.some.injEq] at taken'
    subst taken'
    refine alike.setNode nid rfl ?_
    change Function.update (t.nodes nid).sample.mark g _ = Function.update (s.nodes nid).sample.mark g _
    rw [mark, lengths]

theorem Alike.step (alike : Alike groups number s t) (inv : IpmiInv groups s)
    {a b : IpmiAction n} (schedule : SameButFor number s a b) (taken : s.step groups a = some s')
    (taken' : t.step groups b = some t') : Alike groups number s' t' := by
  cases schedule with
  | @answer g k request data data' sent asked =>
    obtain ⟨config, entry, _, asks⟩ := inv.sent g request (List.mem_of_getElem? sent)
    have sent' : (t.sent g)[k]? = some request := by rw [alike.sent, sent]
    simp only [IpmiState.step, sent, Option.map_some, Option.some.injEq] at taken
    simp only [IpmiState.step, sent', Option.map_some, Option.some.injEq] at taken'
    subst taken taken'
    refine alike.receive (.answer data data' entry ?_)
    rw [asks] at asked
    exact List.singleton_inj.mp asked
  | same =>
    cases a with
    | registerBmc created =>
      cases taken
      cases taken'
      exact ⟨by simp only [alike.user], alike.msgid, alike.sent, alike.pc, alike.mark,
        alike.history, alike.records⟩
    | rollBuffer nid =>
      obtain ⟨_, step⟩ := Option.ite_none_right_eq_some.mp taken
      obtain ⟨_, step'⟩ := Option.ite_none_right_eq_some.mp taken'
      cases step
      cases step'
      exact alike.setNode nid rfl (alike.mark nid)
    | node nid accepted => exact alike.stepNode taken taken'
    | response g k data =>
      obtain ⟨request, sent, rfl⟩ := Option.map_eq_some_iff.mp taken
      obtain ⟨request', sent', rfl⟩ := Option.map_eq_some_iff.mp taken'
      rw [alike.sent, sent] at sent'
      cases sent'
      exact alike.receive (.same _)
    | stray g userMsgData data =>
      obtain ⟨_, step⟩ := Option.ite_none_left_eq_some.mp taken
      obtain ⟨_, step'⟩ := Option.ite_none_left_eq_some.mp taken'
      cases step
      cases step'
      exact alike.receive (.same _)

/-- Two runs of one schedule stay alike. -/
theorem alike_of_runs {trace trace' : List (IpmiState n × IpmiAction n)}
    (run : Run (IpmiState.step groups) (start n) trace s)
    (run' : Run (IpmiState.step groups) (start n) trace' t)
    (schedule : List.Forall₂ (fun x y => SameButFor number x.1 x.2 y.2) trace trace') :
    IpmiInv groups s ∧ Alike groups number s t :=
  run.related (R := fun s t => IpmiInv groups s ∧ Alike groups number s t)
    ⟨ipmiInv_start groups, alike_start groups number⟩
    (fun _ _ _ _ _ _ before same taken taken' =>
      ⟨before.1.step taken, before.2.step before.1 same taken taken'⟩) run' schedule

/-- A sensor with another number found the same in both runs. -/
theorem lastReading_eq_of_alike {history history' : List (Delivery n)}
    (alike : List.Forall₂ (AlikeDelivery groups number) history history') {g : Fin n} {i : Nat}
    {config : IpmiSensorConfig} (entry : (groups g).ctx.ctxs[i]? = some config)
    (other : config.sensorNumber ≠ number) : lastReading history g i = lastReading history' g i := by
  have same : history.filter (Delivery.valid g i) = history'.filter (Delivery.valid g i) := by
    induction alike with
    | nil => rfl
    | cons delivery _ ih =>
      cases delivery with
      | same => rw [List.filter_cons, List.filter_cons, ih]
      | @answer h k config' data data' entry' asks =>
        have elsewhere : ∀ data, Delivery.valid g i ⟨h, some k, data⟩ = false := by
          intro data
          by_contra mine
          simp only [Delivery.valid, Bool.not_eq_false, Bool.and_eq_true, decide_eq_true_eq,
            Option.some.injEq] at mine
          obtain ⟨⟨rfl, rfl⟩, _⟩ := mine
          rw [entry] at entry'
          cases entry'
          exact other asks
        rw [List.filter_cons, List.filter_cons, elsewhere, elsewhere]
        exact ih
  rw [lastReading, lastReading, same]

/-- The bytes of such a sensor are the same in corresponding samples of the two runs. -/
theorem Alike.byteAt_eq (alike : Alike groups number s t) (inv : IpmiInv groups s)
    (inv' : IpmiInv groups t) {k : Nat} {sample sample' : IpmiSample n}
    (there : s.records[k]? = some sample) (there' : t.records[k]? = some sample') {g : Fin n} {i : Nat}
    {config : IpmiSensorConfig} (entry : (groups g).ctx.ctxs[i]? = some config)
    (other : config.sensorNumber ≠ number) :
    byteAt (sample.word g) i = byteAt (sample'.word g) i := by
  have inside : i < (groups g).ctx.nctxs := (List.getElem?_eq_some_iff.mp entry).1
  have mark : sample'.mark = sample.mark := by
    obtain ⟨below, rfl⟩ := List.getElem?_eq_some_iff.mp there
    obtain ⟨below', rfl⟩ := List.getElem?_eq_some_iff.mp there'
    exact alike.records.get below below'
  have few := (groups g).few
  rw [(inv.record sample (List.mem_of_getElem? there)).2 g, byteAt_xstatIpmiRestart few _ inside,
    (inv'.record sample' (List.mem_of_getElem? there')).2 g, byteAt_xstatIpmiRestart few _ inside,
    IpmiSample.found, IpmiSample.found, mark]
  exact lastReading_eq_of_alike (List.forall₂_take _ alike.history) entry other

end IpmiState

/-! ### Printed labels -/

/-- The three groups of the Chameleon configuration, their `ctxs` at any addresses. -/
def chameleonGroups (ctxsAddr : Fin 3 → Nat) (nonNull : ∀ g, ctxsAddr g ≠ 0) : Fin 3 → IpmiGroup :=
  fun g =>
    { ctx := xstatIpmiCtx g, ctxsAddr := ctxsAddr g, nonNull := nonNull g
      nonempty := by
        revert g
        decide
      few := by
        revert g
        decide }

/-- The labels of the three groups, each with the number of the sensor it asks for. -/
def sensorLabels : List (List Char × Byte) :=
  (List.finRange 3).flatMap fun g =>
    (xstatIpmiCtx g).ctxs.map fun config => (config.name.toList, config.sensorNumber)

/-- A text that `print_buffer` makes of a record with the words of the sample, whatever its other words
are, with as much room as `show_stat_attr` makes sure of. -/
def PrintedAs (sample : IpmiSample 3) (text : List Char) : Prop :=
  ∃ (node : XstatNode) (limit : Int) (record : Record), node.IpmiReady ∧ pageSize / 2 < limit ∧
    (∀ i g, (nodeCounters i).data = .ipmi g → record i = sample.word g) ∧
      node.printBuffer limit record = some text

/-- Under a sensor's name a printed record shows the value of the sensor's byte. -/
theorem PrintedAs.shows {sample : IpmiSample 3} {text : List Char} (printed : PrintedAs sample text)
    {g : Fin 3} {i : Nat} {config : IpmiSensorConfig}
    (entry : (xstatIpmiCtx g).ctxs[i]? = some config) :
    numberUnder text.dropLast config.name.toList =
      some (config.value (byteAt (sample.word g) i)) := by
  obtain ⟨node, limit, record, ready, room, words, done⟩ := printed
  have counters : ∀ g, ∃ c, (nodeCounters c).scnprintf = some .xstatIpmiScnprintf ∧
      (nodeCounters c).data = .ipmi g := by decide
  obtain ⟨c, formatter, data⟩ := counters g
  have wide : (recordLimit : Int) < limit := lt_trans (by decide) room
  rw [XstatNode.printBuffer_eq ready wide] at done
  cases done
  have line : (recordLine record).dropLast = render (recordMembers record) := List.dropLast_concat
  have member : (config.name.toList, config.value (byteAt (sample.word g) i)) ∈
      recordMembers record := by
    refine List.mem_flatMap.mpr ⟨c, List.mem_finRange c, ?_⟩
    obtain ⟨inside, rfl⟩ := List.getElem?_eq_some_iff.mp entry
    simp only [counterMembers, formatter, data, words c g data]
    exact List.mem_mapIdx.mpr ⟨i, inside, rfl⟩
  have distinct : ((recordMembers record).map Prod.fst).Nodup := by
    rw [keys_recordMembers]
    exact nodup_recordKeys
  rw [line]
  exact numberUnder_render (unescaped_recordMembers record) distinct member

/-- Where the value of a sensor changes, so does what is shown under its name. -/
theorem PrintedAs.differ {sample sample' : IpmiSample 3} {text text' : List Char}
    (printed : PrintedAs sample text) (printed' : PrintedAs sample' text') {g : Fin 3} {i : Nat}
    {config : IpmiSensorConfig} (entry : (xstatIpmiCtx g).ctxs[i]? = some config)
    (changed : config.value (byteAt (sample.word g) i) ≠ config.value (byteAt (sample'.word g) i)) :
    numberUnder text.dropLast config.name.toList ≠ numberUnder text'.dropLast config.name.toList := by
  rw [printed.shows entry, printed'.shows entry]
  exact fun same => changed (Option.some.inj same)

/-- Every sample can be printed. -/
theorem exists_printedAs (sample : IpmiSample 3) : ∃ text, PrintedAs sample text := by
  let record : Record := fun i =>
    if i = 13 then sample.word 0 else if i = 14 then sample.word 1 else sample.word 2
  have places : ∀ i g, (nodeCounters i).data = .ipmi g →
      (i = 13 ∧ g = 0) ∨ (i = 14 ∧ g = 1) ∨ (i = 15 ∧ g = 2) := by decide
  have words : ∀ i g, (nodeCounters i).data = .ipmi g → record i = sample.word g := by
    intro i g data
    rcases places i g data with ⟨rfl, rfl⟩ | ⟨rfl, rfl⟩ | ⟨rfl, rfl⟩ <;> rfl
  exact ⟨recordLine record, _, pageSize, record,
    XstatNode.ipmiReady_initCounters (registerXstatNode 0) fun _ => 0, by decide, words,
    XstatNode.printBuffer_eq (XstatNode.ipmiReady_initCounters _ _) (by decide) record⟩

theorem mem_sensorLabels {label : List Char × Byte} (member : label ∈ sensorLabels) :
    ∃ (g : Fin 3) (i : Nat) (config : IpmiSensorConfig),
      (xstatIpmiCtx g).ctxs[i]? = some config ∧
        label = (config.name.toList, config.sensorNumber) := by
  obtain ⟨g, _, inside⟩ := List.mem_flatMap.mp member
  obtain ⟨config, among, rfl⟩ := List.mem_map.mp inside
  obtain ⟨i, below, rfl⟩ := List.mem_iff_getElem.mp among
  exact ⟨g, i, _, List.getElem?_eq_getElem below, rfl⟩

/-- In the two runs of one schedule, in which the BMC answers alike except for sensor `number`, no two
labels of corresponding printed records show different values. -/
def LabelsApart (number : Byte) : Prop :=
  ∀ (ctxsAddr : Fin 3 → Nat) (nonNull : ∀ g, ctxsAddr g ≠ 0)
    (trace trace' : List (IpmiState 3 × IpmiAction 3)) (s t : IpmiState 3),
    Run (IpmiState.step (chameleonGroups ctxsAddr nonNull)) (IpmiState.start 3) trace s →
    Run (IpmiState.step (chameleonGroups ctxsAddr nonNull)) (IpmiState.start 3) trace' t →
    List.Forall₂ (fun x y => IpmiState.SameButFor number x.1 x.2 y.2) trace trace' →
    ∀ (k : Nat) (sample sample' : IpmiSample 3) (text text' : List Char),
      s.records[k]? = some sample → t.records[k]? = some sample' →
      PrintedAs sample text → PrintedAs sample' text' →
      ∀ label ∈ sensorLabels, ∀ label' ∈ sensorLabels,
        numberUnder text.dropLast label.1 ≠ numberUnder text'.dropLast label.1 →
        numberUnder text.dropLast label'.1 ≠ numberUnder text'.dropLast label'.1 →
        label.1 = label'.1

/-- Each sensor number but one stands under a single label. -/
theorem label_unique : ∀ label ∈ sensorLabels, ∀ label' ∈ sensorLabels,
    label.2 = label'.2 → label.2 ≠ 58 → label.1 = label'.1 := by decide

theorem labelsApart_of_ne {number : Byte} (other : number ≠ 58) : LabelsApart number := by
  intro ctxsAddr nonNull trace trace' s t run run' schedule k sample sample' text text' there there'
    printed printed' label member label' member' differs differs'
  obtain ⟨inv, alike⟩ := IpmiState.alike_of_runs run run' schedule
  have inv' : IpmiState.IpmiInv (chameleonGroups ctxsAddr nonNull) t :=
    run'.invariant (fun _ _ => True) (IpmiState.ipmiInv_start _)
      (fun _ _ _ before _ taken => before.step taken) fun _ _ => trivial
  have asks : ∀ label ∈ sensorLabels,
      numberUnder text.dropLast label.1 ≠ numberUnder text'.dropLast label.1 →
        label.2 = number := by
    intro label member differs
    obtain ⟨g, i, config, entry, rfl⟩ := mem_sensorLabels member
    by_contra another
    apply differs
    rw [printed.shows entry, printed'.shows entry, alike.byteAt_eq inv inv' there there' entry another]
  have mine := asks label member differs
  exact label_unique label member label' member' (mine.trans (asks label' member' differs').symm)
    (mine ▸ other)

/-! ### Sensor 58 -/

/-- Whether two actions belong to one schedule. -/
def sameButForCheck (number : Byte) (x y : IpmiState 3 × IpmiAction 3) : Bool :=
  decide (x.2 = y.2) ||
    match x.2, y.2 with
    | .response g k _, .response g' k' _ =>
      decide (g = g') && decide (k = k') &&
        (x.1.sent g)[k]?.any fun request => decide (request.data = [number])
    | _, _ => false

theorem sameButFor_of_check {number : Byte} {x y : IpmiState 3 × IpmiAction 3}
    (passed : sameButForCheck number x y = true) : IpmiState.SameButFor number x.1 x.2 y.2 := by
  obtain ⟨s, a⟩ := x
  obtain ⟨t, b⟩ := y
  rw [sameButForCheck, Bool.or_eq_true] at passed
  rcases passed with same | answered
  · cases of_decide_eq_true same
    exact .same a
  · split at answered
    · next answer answer' =>
      simp only [Bool.and_eq_true, decide_eq_true_eq] at answered
      obtain ⟨⟨rfl, rfl⟩, asked⟩ := answered
      obtain ⟨request, sent, ours⟩ := (Option.any_eq_true _ _).mp asked
      rw [answer, answer']
      exact .answer _ _ sent (of_decide_eq_true ours)
    · cases answered

/-- A pass over the three groups, the answers to the requests made for `Fan6A` and `Fan6B`, and
another pass. -/
def fan6Schedule (groupA groupB : Fin 3) (reading : Byte) : List (IpmiAction 3) :=
  .registerBmc (fun _ => true) :: .rollBuffer 0 :: List.replicate 45 (.node 0 true) ++
    [.response groupA 1 [0, reading, 0], .response groupB 1 [0, reading, 0]] ++
      .rollBuffer 0 :: List.replicate 45 (.node 0 true)

/-- Two answers of the one sensor show under two labels. -/
theorem not_labelsApart_fan6 : ¬ LabelsApart 58 := by
  intro apart
  let groups := chameleonGroups ![0x1000, 0x1100, 0x1200] (by decide)
  have done : (exec (paired (sameButForCheck 58) (IpmiState.step groups) (IpmiState.step groups))
      (IpmiState.start 3, IpmiState.start 3) ((fan6Schedule 0 1 1).zip (fan6Schedule 0 1 2))).any fun x =>
        (x.1.records[1]?.any fun sample =>
          byteAt (sample.word 0) 5 == 1 && byteAt (sample.word 1) 5 == 1) &&
        x.2.records[1]?.any fun sample =>
          byteAt (sample.word 0) 5 == 2 && byteAt (sample.word 1) 5 == 2 := by decide +kernel
  obtain ⟨_, ⟨s, t⟩, run, _, passed⟩ := run_of_exec_any done
  obtain ⟨trace, trace', first, second, schedule⟩ := run.of_paired
  simp only [Bool.and_eq_true, Option.any_eq_true, beq_iff_eq] at passed
  obtain ⟨⟨sample, there, fan6A, fan6B⟩, sample', there', fan6A', fan6B'⟩ := passed
  obtain ⟨text, printed⟩ := exists_printedAs sample
  obtain ⟨text', printed'⟩ := exists_printedAs sample'
  have entryA : (xstatIpmiCtx 0).ctxs[5]? = some (ipmiCtx "Fan6A" 58 120 0) := rfl
  have entryB : (xstatIpmiCtx 1).ctxs[5]? = some (ipmiCtx "Fan6B" 58 120 0) := rfl
  have showsA := printed.differ printed' entryA (by rw [fan6A, fan6A']; decide)
  have showsB := printed.differ printed' entryB (by rw [fan6B, fan6B']; decide)
  have same := apart _ _ trace trace' s t first second
    (schedule.imp fun _ _ => sameButFor_of_check) 1 sample sample' text text' there there' printed
    printed' ("Fan6A".toList, 58) (by decide) ("Fan6B".toList, 58) (by decide) showsA showsB
  revert same
  decide

/-- **Labels report sensors of their own, except for sensor 58.** -/
theorem labelsApart_iff (number : Byte) : LabelsApart number ↔ number ≠ 58 := by
  refine ⟨?_, labelsApart_of_ne⟩
  rintro apart rfl
  exact not_labelsApart_fan6 apart

/-- `Fan6A` and `Fan6B` both show sensor 58. -/
theorem one_sensor_two_labels : ¬ ∀ number, LabelsApart number :=
  fun always => not_labelsApart_fan6 (always 58)

end Xstats.Xstat
