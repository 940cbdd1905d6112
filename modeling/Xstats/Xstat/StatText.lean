/-
**The text of a record, and of a stat read.**

`recordMembers` says what a record stands for: a key and a number for every plain counter, `tpkg`
for the temperature word, and a key and a number for every sensor of the three IPMI groups, in the
order of `nodeCounters`. A node whose IPMI entries were set prints exactly that
(`printBuffer_eq`): one JSON object and a newline, at most `recordLimit` characters long whatever
the words are.

A stat read prints only while more than half a page is left, so that no record is ever cut
(`showStatAttr_spec`).
-/

import Xstats.Xstat.Node

namespace Xstats.Xstat

open BoundedText Bytes FlatJson RingBuffer

/-! ### What a record stands for -/

/-- The members of one counter with the word `data`. -/
def counterMembers (i : Fin xstatNcnt) (data : Word) : List Member :=
  match (nodeCounters i).scnprintf, (nodeCounters i).data with
  | none, _ => [((nodeCounters i).name.toList, (data.toNat : Int))]
  | some .tempScnprintf, _ => [("tpkg".toList, ((byteAt data 0).toNat : Int))]
  | some .xstatIpmiScnprintf, .ipmi group => (xstatIpmiCtx group).members data
  | some .xstatIpmiScnprintf, _ => []

/-- The members of a record. -/
def recordMembers (record : Record) : List Member :=
  (List.finRange xstatNcnt).flatMap fun i => counterMembers i (record i)

/-- The keys of one counter. -/
def counterKeys (i : Fin xstatNcnt) : List (List Char) :=
  match (nodeCounters i).scnprintf, (nodeCounters i).data with
  | none, _ => [(nodeCounters i).name.toList]
  | some .tempScnprintf, _ => ["tpkg".toList]
  | some .xstatIpmiScnprintf, .ipmi group =>
    (xstatIpmiCtx group).ctxs.map fun config => config.name.toList
  | some .xstatIpmiScnprintf, _ => []

/-- The keys of a record, in the order of `nodeCounters`. -/
def recordKeys : List (List Char) := (List.finRange xstatNcnt).flatMap counterKeys

/-- One line of a stat read: an object and a newline. -/
def recordLine (record : Record) : List Char := render (recordMembers record) ++ ['\n']

theorem keys_counterMembers (i : Fin xstatNcnt) (data : Word) :
    (counterMembers i data).map Prod.fst = counterKeys i := by
  unfold counterMembers counterKeys
  split
  · rfl
  · rfl
  · exact keys_members _ _
  · rfl

theorem keys_recordMembers (record : Record) :
    (recordMembers record).map Prod.fst = recordKeys := by
  simp only [recordKeys, recordMembers, List.map_flatMap, keys_counterMembers]

/-- Every key names one member only. -/
theorem nodup_recordKeys : recordKeys.Nodup := by decide +kernel

/-- No key needs an escape in a JSON string. -/
theorem unescaped_recordKeys : ∀ key ∈ recordKeys, ∀ c ∈ key, unescaped c := by
  have all : (recordKeys.all fun key => key.all fun c => decide (unescaped c)) = true := by decide
  simpa only [List.all_eq_true, decide_eq_true_eq] using all

theorem counterMembers_ne_nil (i : Fin xstatNcnt) (data : Word) : counterMembers i data ≠ [] := by
  have keys : ∀ i, counterKeys i ≠ [] := by decide
  intro empty
  apply keys i
  rw [← keys_counterMembers i data, empty]
  rfl

theorem recordMembers_ne_nil (record : Record) : recordMembers record ≠ [] := by
  have keys : recordKeys ≠ [] := by decide
  intro empty
  rw [← keys_recordMembers record, empty] at keys
  exact keys rfl

theorem unescaped_recordMembers (record : Record) :
    ∀ m ∈ recordMembers record, ∀ c ∈ m.1, unescaped c := by
  intro m member
  apply unescaped_recordKeys
  rw [← keys_recordMembers record]
  exact List.mem_map_of_mem member

/-! ### How long a line can be -/

/-- No number of a record takes more than twenty characters. -/
theorem length_signed_counterMembers {i : Fin xstatNcnt} {data : Word} {m : Member}
    (member : m ∈ counterMembers i data) : (Decimal.signed m.2).length ≤ 20 := by
  have ofNat : ∀ n : Nat, n < 2 ^ 64 → (Decimal.signed (n : Int)).length ≤ 20 := by
    intro n below
    rw [Decimal.signed_natCast]
    exact Decimal.length_natural_le (by decide) (below.trans (by decide))
  unfold counterMembers at member
  split at member
  · rw [List.mem_singleton] at member
    subst member
    exact ofNat _ data.isLt
  · rw [List.mem_singleton] at member
    subst member
    exact ofNat _ ((byteAt data 0).isLt.trans (by decide))
  · obtain ⟨k, inside, rfl⟩ := List.mem_mapIdx.mp member
    have fits := value_lt (xstatIpmiCtx _).ctxs[k] (byteAt data k)
    exact (Decimal.length_signed_le (k := 10) (by decide) (fits.trans (by decide))).trans (by decide)
  · cases member

/-- A bound for the length of every line, far below half a page. -/
def recordLimit : Nat := 1024

theorem length_recordLine_le (record : Record) : (recordLine record).length ≤ recordLimit := by
  have fields : ((recordMembers record).map fun m =>
      m.1.length + 4 + (Decimal.signed m.2).length).sum ≤
        ((recordMembers record).map fun m => m.1.length + 24).sum := by
    refine List.sum_le_sum fun m member => ?_
    obtain ⟨i, _, inside⟩ := List.mem_flatMap.mp member
    have := length_signed_counterMembers inside
    omega
  have keys : ((recordMembers record).map fun m => m.1.length + 24).sum =
      (recordKeys.map fun key => key.length + 24).sum := by
    rw [← keys_recordMembers record, List.map_map]
    rfl
  have total : (recordKeys.map fun key => key.length + 24).sum + 3 ≤ recordLimit := by decide
  have body := length_renderMembers_le (recordMembers record)
  simp only [recordLine, render, List.length_append, List.length_cons, List.length_nil]
  omega

/-! ### What is printed -/

namespace XstatNode

/-- What one iteration of `print_buffer` writes. -/
def counterText (buf : Record) (i : Fin xstatNcnt) : List Char :=
  renderMembers (counterMembers i (buf i)) ++ if i.val ≠ xstatNcnt - 1 then [','] else []

/-- A counter's own characters are those of its members. -/
theorem printField_eq {node : XstatNode} (ready : node.IpmiReady) (buf : Record) (cursor : Cursor)
    (i : Fin xstatNcnt) :
    node.printField buf cursor i = some (cursor.put (renderMembers (counterMembers i (buf i)))) := by
  have groupOfIpmi : ∀ i, (nodeCounters i).scnprintf = some .xstatIpmiScnprintf →
      ∃ group, (nodeCounters i).data = .ipmi group := by decide
  have sensors : ∀ group, (xstatIpmiCtx group).ctxs ≠ [] := by decide
  unfold printField counterMembers
  cases formatter : (nodeCounters i).scnprintf with
  | none => simp [renderMembers, renderMember, Decimal.signed_natCast]
  | some f =>
    cases f with
    | tempScnprintf =>
      simp only [callScnprintf, tempScnprintf, toNat_and_mask, Option.map_some, Cursor.put]
      rfl
    | xstatIpmiScnprintf =>
      obtain ⟨group, data⟩ := groupOfIpmi i formatter
      simp only [data, ready i group data, callScnprintf, Option.map_some,
        xstatIpmiScnprintf_eq (sensors group), Cursor.put]

theorem printCounter_eq {node : XstatNode} (ready : node.IpmiReady) (buf : Record) (cursor : Cursor)
    (i : Fin xstatNcnt) :
    node.printCounter buf cursor i = some (cursor.put (counterText buf i)) := by
  simp only [printCounter, printField_eq ready buf cursor i, Option.bind_eq_bind,
    Option.bind_some, Option.pure_def, counterText]
  split
  · rw [Cursor.put_put]
  · rw [List.append_nil]

/-- The loop of `print_buffer` writes the counters' texts one after the other. -/
theorem foldlM_printCounter {node : XstatNode} (ready : node.IpmiReady) (buf : Record)
    (counters : List (Fin xstatNcnt)) (cursor : Cursor) :
    counters.foldlM (node.printCounter buf) cursor =
      some (cursor.putAll (counters.map (counterText buf))) := by
  induction counters generalizing cursor with
  | nil => rfl
  | cons i rest ih =>
    rw [List.foldlM_cons, printCounter_eq ready buf cursor i]
    exact ih _

/-- The counters' texts are the members of the record with commas between them. -/
theorem flatten_counterText (buf : Record) :
    ((List.finRange xstatNcnt).map (counterText buf)).flatten = renderMembers (recordMembers buf) := by
  have earlier : ∀ counters : List (Fin 15), counters ≠ [] →
      ((counters.map Fin.castSucc).map (counterText buf)).flatten =
        renderMembers ((counters.map Fin.castSucc).flatMap fun i => counterMembers i (buf i)) ++
          [','] := by
    intro counters some
    induction counters with
    | nil => exact absurd rfl some
    | cons i rest ih =>
      have comma : counterText buf i.castSucc =
          renderMembers (counterMembers i.castSucc (buf i.castSucc)) ++ [','] := by
        have notLast : i.castSucc.val ≠ xstatNcnt - 1 := by
          show i.val ≠ 15
          omega
        rw [counterText, if_pos notLast]
      by_cases more : rest = []
      · subst more
        simp [comma]
      · have members : (rest.map Fin.castSucc).flatMap (fun i => counterMembers i (buf i)) ≠ [] := by
          obtain ⟨j, others, rfl⟩ := List.exists_cons_of_ne_nil more
          simp [counterMembers_ne_nil]
        simp only [List.map_cons, List.flatten_cons, List.flatMap_cons, comma, ih more,
          renderMembers_append (counterMembers_ne_nil _ _) members]
        simp
  have indices : List.finRange xstatNcnt = (List.finRange 15).map Fin.castSucc ++ [15] := by decide
  have last : counterText buf 15 = renderMembers (counterMembers 15 (buf 15)) := by
    simp [counterText]
  have before :
      ((List.finRange 15).map Fin.castSucc).flatMap (fun i => counterMembers i (buf i)) ≠ [] := by
    simp [List.finRange_succ, counterMembers_ne_nil]
  rw [indices, List.map_append, List.flatten_append, earlier _ (by decide), recordMembers, indices,
    List.flatMap_append, renderMembers_append before (by simp [counterMembers_ne_nil])]
  simp [last]

/-- **The text of a record**: its line, cut only by the limit. -/
theorem printBuffer_eq_scnprintf {node : XstatNode} (ready : node.IpmiReady) (limit : Int)
    (buf : Record) : printBuffer limit node buf = some (scnprintf limit (recordLine buf)) := by
  have whole : '{' :: (renderMembers (recordMembers buf) ++ ['}', '\n']) = recordLine buf := by
    simp [recordLine, render]
  have written : (((Cursor.start limit).put ['{']).putAll
        ((List.finRange xstatNcnt).map (counterText buf))).put ['}', '\n']
      = (Cursor.start limit).put (recordLine buf) := by
    rw [Cursor.putAll_eq, flatten_counterText, Cursor.put_put, Cursor.put_put]
    congr 1
  simp only [printBuffer, foldlM_printCounter ready buf, Option.bind_eq_bind,
    Option.bind_some, Option.pure_def, written]
  rfl

/-- With room for the longest line nothing is cut. -/
theorem printBuffer_eq {node : XstatNode} (ready : node.IpmiReady) {limit : Int}
    (room : recordLimit < limit) (buf : Record) :
    printBuffer limit node buf = some (recordLine buf) := by
  have short := length_recordLine_le buf
  rw [printBuffer_eq_scnprintf ready, scnprintf_of_fits (by omega)]

/-! ### A stat read -/

/-- The node after `count` records were taken out of its ring. -/
def taken (node : XstatNode) (count : Nat) : XstatNode :=
  { node with
    bufferBase := (node.bufferBase + count) % xstatNbuf
    bufferSize := node.bufferSize - count }

theorem ring_taken (node : XstatNode) (count : Nat) :
    (node.taken count).ring = node.ring.drop xstatNbuf count := rfl

@[simp] theorem pending_taken (node : XstatNode) (count : Nat) :
    (node.taken count).pending = node.pending.drop count := by
  rw [pending, ring_taken, Buffer.contents_drop]
  rfl

theorem taken_zero {node : XstatNode} (baseLt : node.bufferBase < xstatNbuf) :
    node.taken 0 = node := by
  simp [taken, Nat.mod_eq_of_lt baseLt]

theorem taken_taken (node : XstatNode) (first second : Nat) :
    (node.taken first).taken second = node.taken (first + second) := by
  simp [taken, Nat.add_assoc, Nat.sub_sub]

/-- **The loop of `show_stat_attr`.** From a positive limit it takes `count` of the pending records
out and prints their lines whole; it takes at least one if there is one and the limit is over half
a page. -/
theorem showStatLoop_spec (fuel : Nat) {node : XstatNode} (ready : node.IpmiReady)
    (indexed : node.ring.WellIndexed xstatNbuf) (enough : node.bufferSize ≤ fuel) {limit : Int}
    (positive : 1 ≤ limit) (read : StatRead) :
    ∃ count ≤ node.bufferSize,
      showStatLoop fuel limit node read = (node.taken count,
        some { text := read.text ++ (node.pending.take count).flatMap recordLine
               records := read.records ++ node.pending.take count }) ∧
      (((node.pending.take count).flatMap recordLine).length : Int) < limit ∧
      (0 < node.bufferSize → pageSize / 2 < limit → 0 < count) := by
  have stay : node.taken 0 = node := taken_zero indexed.base_lt
  induction fuel generalizing node limit read with
  | zero =>
    refine ⟨0, Nat.zero_le _, by simp [showStatLoop, stay], by simp; omega, ?_⟩
    intro some
    omega
  | succ fuel ih =>
    by_cases more : limit > pageSize / 2 ∧ node.bufferSize > 0
    · obtain ⟨wide, some⟩ := more
      have room : (recordLimit : Int) < limit := lt_of_le_of_lt (by decide) wide
      have short := length_recordLine_le (node.buffer node.bufferBase)
      have front : node.pending = node.buffer node.bufferBase :: node.pending.drop 1 :=
        Buffer.contents_eq_cons (r := node.ring) some indexed.base_lt
      have nextReady : (node.taken 1).IpmiReady := ready
      have next : (node.taken 1).ring.WellIndexed xstatNbuf := indexed.drop some
      have left : 1 ≤ limit - (recordLine (node.buffer node.bufferBase)).length := by omega
      have fewer : (node.taken 1).bufferSize ≤ fuel := by
        simp only [taken]
        omega
      obtain ⟨count, within, result, fits, _⟩ := ih nextReady next fewer left
        { text := read.text ++ recordLine (node.buffer node.bufferBase)
          records := read.records ++ [node.buffer node.bufferBase] } (taken_zero next.base_lt)
      refine ⟨count + 1, by simp only [taken] at within; omega, ?_, ?_, fun _ _ => Nat.succ_pos _⟩
      · rw [showStatLoop, if_pos ⟨wide, some⟩, printBuffer_eq ready room]
        refine result.trans ?_
        rw [taken_taken, Nat.add_comm 1 count, pending_taken, front]
        simp
      · rw [front, List.take_succ_cons, List.flatMap_cons, List.length_append]
        rw [pending_taken] at fits
        omega
    · refine ⟨0, Nat.zero_le _, ?_, by simp; omega, ?_⟩
      · rw [showStatLoop, if_neg more, stay]
        simp
      · intro some wide
        exact absurd ⟨wide, some⟩ more

/-- **A stat read** takes the `count` oldest records and prints their lines whole, in less than a
page; only an empty ring prints nothing. -/
theorem showStatAttr_spec {node : XstatNode} (ready : node.IpmiReady)
    (indexed : node.ring.WellIndexed xstatNbuf) :
    ∃ count ≤ node.bufferSize,
      node.showStatAttr = (node.taken count,
        some { text := (node.pending.take count).flatMap recordLine
               records := node.pending.take count }) ∧
      ((node.pending.take count).flatMap recordLine).length < pageSize ∧
      (0 < node.bufferSize → 0 < count) := by
  have positive : 1 ≤ (pageSize : Int) := by decide
  obtain ⟨count, within, result, fits, progress⟩ :=
    showStatLoop_spec node.bufferSize ready indexed le_rfl positive ⟨[], []⟩
  refine ⟨count, within, ?_, by exact_mod_cast fits, fun some => progress some (by decide)⟩
  simpa [showStatAttr] using result

end XstatNode

/-! ### Reading a line back -/

/-- A line is one JSON object with the keys of `nodeCounters`, and gives back what `record` holds. -/
structure DecodesTo (line : List Char) (record : Record) (members : List Member) : Prop where
  /-- One object, one newline, and that at the end. -/
  line_eq : ∃ object, line = object ++ ['\n'] ∧ '\n' ∉ object ∧ Object object members ∧
    parse object = some members
  keys_eq : members.map Prod.fst = recordKeys
  keys_nodup : (members.map Prod.fst).Nodup
  /-- A plain counter shows its whole word. -/
  plain : ∀ i, (nodeCounters i).scnprintf = none →
    ((nodeCounters i).name.toList, ((record i).toNat : Int)) ∈ members
  /-- `tpkg` shows the low eight bits of the temperature word. -/
  tpkg : ∀ i, (nodeCounters i).scnprintf = some .tempScnprintf →
    ("tpkg".toList, (((record i).toNat % 2 ^ 8 : Nat) : Int)) ∈ members
  /-- Sensor `k` of a group shows byte `k` of the group's word, shifted and scaled. -/
  sensors : ∀ i group, (nodeCounters i).data = .ipmi group →
    ∀ k config, (xstatIpmiCtx group).ctxs[k]? = some config →
      (config.name.toList,
        ((byteAt (record i) k).toNat + config.base.toInt) * config.mul.toNat) ∈ members

theorem mem_recordMembers {record : Record} {i : Fin xstatNcnt} {m : Member}
    (member : m ∈ counterMembers i (record i)) : m ∈ recordMembers record :=
  List.mem_flatMap.mpr ⟨i, List.mem_finRange i, member⟩

theorem decodesTo_recordLine (record : Record) :
    DecodesTo (recordLine record) record (recordMembers record) := by
  have clean := unescaped_recordMembers record
  have parsed := parse_render (recordMembers_ne_nil record) clean
  have keys := keys_recordMembers record
  refine ⟨⟨_, rfl, newline_not_mem_render clean, parse_sound parsed, parsed⟩, keys,
    keys ▸ nodup_recordKeys, fun i plain => ?_, fun i temp => ?_, fun i group data k config at_k => ?_⟩
  · exact mem_recordMembers (i := i) (by simp [counterMembers, plain])
  · exact mem_recordMembers (i := i) (by simp [counterMembers, temp, byteAt])
  · have formatter : ∀ i group, (nodeCounters i).data = .ipmi group →
        (nodeCounters i).scnprintf = some .xstatIpmiScnprintf := by decide
    refine mem_recordMembers (i := i) ?_
    simp only [counterMembers, formatter i group data, data, IpmiSensorsCtx.members]
    obtain ⟨inside, rfl⟩ := List.getElem?_eq_some_iff.mp at_k
    exact List.mem_mapIdx.mpr ⟨k, inside, rfl⟩

/-- **A stat read delivers whole, well-formed, decodable records.** Whatever words the ring holds,
the text of a stat read is shorter than a page and is one complete line for each record it removed
from the front of the ring, at least one unless the ring was empty; each line is a JSON object from
which the record's readings come back. -/
theorem stat_read_delivers_records {node : XstatNode} (ready : node.IpmiReady)
    (indexed : node.ring.WellIndexed xstatNbuf) :
    ∃ node' read lines, node.showStatAttr = (node', some read) ∧
      read.text = lines.flatten ∧ read.text.length < pageSize ∧
      node.pending = read.records ++ node'.pending ∧
      (node.pending ≠ [] → read.records ≠ []) ∧
      List.Forall₂ (fun line record => ∃ members, DecodesTo line record members)
        lines read.records := by
  obtain ⟨count, within, result, short, progress⟩ := node.showStatAttr_spec ready indexed
  refine ⟨_, _, (node.pending.take count).map recordLine, result, ?_, short, ?_, ?_, ?_⟩
  · exact List.flatMap_def ..
  · rw [XstatNode.pending_taken, List.take_append_drop]
  · intro some
    have size : node.pending.length = node.bufferSize := Buffer.length_contents _ _
    have positive := progress (size ▸ List.length_pos_iff.mpr some)
    simp only [ne_eq, List.take_eq_nil_iff, not_or]
    exact ⟨positive.ne', some⟩
  · rw [List.forall₂_map_left_iff]
    exact List.forall₂_same.mpr fun record _ => ⟨_, decodesTo_recordLine record⟩

/-- A node whose five pending records lie around the end of the ring, all their words near `2 ^ 64`. -/
def wrappedNode : XstatNode :=
  { (registerXstatNode 0).initCounters Fin.val with
    buffer := fun slot i => BitVec.ofInt 64 (-((slot * xstatNcnt + i : Nat) : Int))
    bufferBase := 254, bufferNext := 3, bufferSize := 5 }

/-- Five records around the end of the ring, with words of up to twenty digits: what a read prints of
them are whole lines, at least one, and it decodes. -/
theorem stat_read_delivers_wrapped_records :
    (wrappedNode.pending.map fun record => (record 1).toNat) =
      [18446744073709547551, 18446744073709547535, 18446744073709551615, 18446744073709551599,
        18446744073709551583] ∧
    ∃ node' read lines, wrappedNode.showStatAttr = (node', some read) ∧
      read.text = lines.flatten ∧ read.text.length < pageSize ∧
      wrappedNode.pending = read.records ++ node'.pending ∧ read.records ≠ [] ∧
      List.Forall₂ (fun line record => ∃ members, DecodesTo line record members)
        lines read.records := by
  have ready : wrappedNode.IpmiReady := XstatNode.ipmiReady_initCounters (registerXstatNode 0) Fin.val
  have indexed : wrappedNode.ring.WellIndexed xstatNbuf := ⟨by decide, by decide, by decide, rfl⟩
  have held : wrappedNode.pending ≠ [] := List.cons_ne_nil _ _
  obtain ⟨node', read, lines, result, text, short, front, some, decoded⟩ :=
    stat_read_delivers_records ready indexed
  exact ⟨by decide +kernel, node', read, lines, result, text, short, front, some held, decoded⟩

end Xstats.Xstat
