/-
**The sensors of micstat** (`temp_restart`, `temp2_restart`, `power_restart` and their formatters).

Twenty-three readings are packed into three words. A reading is taken out of a register by `GET_BITS`
and assigned to a member of a union, which keeps its low eight or sixteen bits; the union is static, so
that a pass writes over what the last one left. A formatter puts the word into a union of the same type
and prints the members, not in the order of their places.

* `printed_of_described`: what a formatter prints of members that were assigned.
* `scnprintf_restart`: each formatter prints each sensor under its own name.
* `sensors_print`: so it does in every sequence of passes, whatever they read before.
-/

import Xstats.Haswellstat.Counters
import Xstats.Lib.BitFields
import Xstats.Lib.BoundedText
import Xstats.Lib.Decimal

namespace Xstats.Micstat

open BitFields BoundedText Haswellstat

/-! ### Registers -/

def mrSmcPwrPcie : BitVec 8 := 0x28
def mrSmcPwr2x3 : BitVec 8 := 0x29
def mrSmcPwr2x4 : BitVec 8 := 0x2a
def mrSmcAvgPwr1 : BitVec 8 := 0x36
def mrSmcTempCpu : BitVec 8 := 0x40
def mrSmcTempExhaust : BitVec 8 := 0x41
def mrSmcTempInlet : BitVec 8 := 0x42
def mrSmcTempVccp : BitVec 8 := 0x43
def mrSmcTempVddg : BitVec 8 := 0x44
def mrSmcTempVddq : BitVec 8 := 0x45
def mrSmcTempGddr : BitVec 8 := 0x46
def mrSmcPwrVccp : BitVec 8 := 0x58
def mrSmcPwrVddq : BitVec 8 := 0x59
def mrSmcPwrVddg : BitVec 8 := 0x5a

/-- What a pass finds: of each SMC register what `gmbus_i2c_read` returns and where it is to write, and
the registers `SBOX_CURRENT_DIE_TEMP0` to `SBOX_CURRENT_DIE_TEMP2`. No pass of a counter reads an SMC
register twice. -/
structure Registers where
  gmbusI2cRead : BitVec 8 → Int × BitVec 32
  currentDieTemp0 : BitVec 32
  currentDieTemp1 : BitVec 32
  currentDieTemp2 : BitVec 32

/-- `mr_smc_rd`: what it leaves in `*val`. -/
def Registers.mrSmcRd (regs : Registers) (reg : BitVec 8) : BitVec 32 :=
  let (rl, val) := regs.gmbusI2cRead reg
  if rl = 4 then val else 0

/-- `GET_BITS`. -/
def getBits (l r : Nat) (v : BitVec 32) : BitVec 32 := (v >>> r) &&& (1#32 <<< (l - r + 1) - 1)

theorem lowMask_eq {k : Nat} (narrow : k < 32) : 1#32 <<< k - 1 = BitVec.ofNat 32 (2 ^ k - 1) := by
  have positive := Nat.two_pow_pos k
  have small : 2 ^ k < 2 ^ 32 := Nat.pow_lt_pow_right (by decide) narrow
  have power : (1#32 <<< k).toNat = 2 ^ k := by
    rw [BitVec.toNat_shiftLeft]
    exact (congrArg (· % 2 ^ 32) (Nat.one_shiftLeft k)).trans (Nat.mod_eq_of_lt small)
  have least : (1 : BitVec 32) ≤ 1#32 <<< k := by
    rw [BitVec.le_def, power]
    exact positive
  apply BitVec.eq_of_toNat_eq
  rw [BitVec.toNat_sub_of_le least, power, BitVec.toNat_ofNat]
  exact (Nat.mod_eq_of_lt (by omega)).symm

theorem toNat_getBits {l r : Nat} (narrow : l - r + 1 < 32) (v : BitVec 32) :
    (getBits l r v).toNat = (⟨r, l - r + 1⟩ : Field).get v := by
  rw [getBits, lowMask_eq narrow]
  exact Field.toNat_shiftRight_and ⟨r, l - r + 1⟩ v narrow.le

/-! ### The unions -/

/-- A member of the structure in a union: its name, and its place in `value`, where the first member
has the lowest bits. -/
structure UnionMember where
  name : String
  field : Field
  deriving DecidableEq, Repr

/-! `union temp_union`. -/

def tdie : UnionMember := ⟨"tdie", ⟨0, 8⟩⟩
def tfin : UnionMember := ⟨"tfin", ⟨8, 8⟩⟩
def tfout : UnionMember := ⟨"tfout", ⟨16, 8⟩⟩
def tgddr : UnionMember := ⟨"tgddr", ⟨24, 8⟩⟩
def tvccp : UnionMember := ⟨"tvccp", ⟨32, 8⟩⟩
def tvddg : UnionMember := ⟨"tvddg", ⟨40, 8⟩⟩
def tvddq : UnionMember := ⟨"tvddq", ⟨48, 8⟩⟩
def tdie0 : UnionMember := ⟨"tdie0", ⟨56, 8⟩⟩

/-! `union temp2_union`. -/

def tdie1 : UnionMember := ⟨"tdie1", ⟨0, 8⟩⟩
def tdie2 : UnionMember := ⟨"tdie2", ⟨8, 8⟩⟩
def tdie3 : UnionMember := ⟨"tdie3", ⟨16, 8⟩⟩
def tdie4 : UnionMember := ⟨"tdie4", ⟨24, 8⟩⟩
def tdie5 : UnionMember := ⟨"tdie5", ⟨32, 8⟩⟩
def tdie6 : UnionMember := ⟨"tdie6", ⟨40, 8⟩⟩
def tdie7 : UnionMember := ⟨"tdie7", ⟨48, 8⟩⟩
def tdie8 : UnionMember := ⟨"tdie8", ⟨56, 8⟩⟩

/-! `union power_union`. -/

def avgpwr : UnionMember := ⟨"avgpwr", ⟨0, 16⟩⟩
def pciepwr : UnionMember := ⟨"pciepwr", ⟨16, 8⟩⟩
def c2x3pwr : UnionMember := ⟨"c2x3pwr", ⟨24, 8⟩⟩
def c2x4pwr : UnionMember := ⟨"c2x4pwr", ⟨32, 8⟩⟩
def vccppwr : UnionMember := ⟨"vccppwr", ⟨40, 8⟩⟩
def vddgpwr : UnionMember := ⟨"vddgpwr", ⟨48, 8⟩⟩
def vddqpwr : UnionMember := ⟨"vddqpwr", ⟨56, 8⟩⟩

/-- Assign to members of a union, one after the other. -/
def assignMembers (value : Word) (values : List (UnionMember × BitVec 32)) : Word :=
  Field.assign value (values.map fun x => (x.1.field, x.2.toNat))

/-- A number under a name, in the format `"%s":%u,` or `"%s":%llu,`. -/
def namedText (name : String) (n : Nat) : List Char :=
  '"' :: name.toList ++ ('"' :: ':' :: Decimal.natural n ++ [','])

/-- `PRINT_TEMP` and `PRINT_POWER`. -/
def memberText (data : Word) (m : UnionMember) : List Char := namedText m.name (m.field.get data)

/-- A formatter that prints these members. `scnprintf` returns no negative number. -/
def printMembers (members : List UnionMember) (limit : Int) (data : Word) : List Char :=
  (members.foldl (fun cursor m => cursor.put (memberText data m)) (Cursor.start limit)).text

/-! ### The counters -/

/-- `temp_restart`, with `USE_SMC`. -/
def tempRestart (regs : Registers) (tempData : Word) : Word :=
  let die := regs.mrSmcRd mrSmcTempCpu
  let fout := regs.mrSmcRd mrSmcTempExhaust
  let fin := regs.mrSmcRd mrSmcTempInlet
  let vccp := regs.mrSmcRd mrSmcTempVccp
  let vddg := regs.mrSmcRd mrSmcTempVddg
  let vddq := regs.mrSmcRd mrSmcTempVddq
  let gddr := regs.mrSmcRd mrSmcTempGddr
  let die1 := regs.currentDieTemp0
  assignMembers tempData
    [(tdie, getBits 15 0 die), (tfin, getBits 15 0 fin), (tfout, getBits 15 0 fout),
      (tvccp, getBits 15 0 vccp), (tvddg, getBits 15 0 vddg), (tvddq, getBits 15 0 vddq),
      (tgddr, getBits 15 0 gddr), (tdie0, getBits 9 0 die1)]

/-- `temp_scnprintf`. -/
def tempScnprintf : Int → Word → List Char :=
  printMembers [tfin, tvccp, tgddr, tvddq, tvddg, tdie, tfout, tdie0]

/-- `temp2_restart`. -/
def temp2Restart (regs : Registers) (temp2Data : Word) : Word :=
  let die1 := regs.currentDieTemp0
  let die2 := regs.currentDieTemp1
  let die3 := regs.currentDieTemp2
  assignMembers temp2Data
    [(tdie1, getBits 19 10 die1), (tdie2, getBits 29 20 die1), (tdie3, getBits 9 0 die2),
      (tdie4, getBits 19 10 die2), (tdie5, getBits 29 20 die2), (tdie6, getBits 9 0 die3),
      (tdie7, getBits 19 10 die3), (tdie8, getBits 29 20 die3)]

/-- `temp2_scnprintf`. -/
def temp2Scnprintf : Int → Word → List Char :=
  printMembers [tdie1, tdie2, tdie3, tdie4, tdie5, tdie6, tdie7, tdie8]

/-- `power_restart`. -/
def powerRestart (regs : Registers) (powerData : Word) : Word :=
  let vccp := regs.mrSmcRd mrSmcPwrVccp
  let vddg := regs.mrSmcRd mrSmcPwrVddg
  let vddq := regs.mrSmcRd mrSmcPwrVddq
  let prd1 := regs.mrSmcRd mrSmcAvgPwr1
  let pcie := regs.mrSmcRd mrSmcPwrPcie
  let p2x3 := regs.mrSmcRd mrSmcPwr2x3
  let p2x4 := regs.mrSmcRd mrSmcPwr2x4
  assignMembers powerData
    [(vccppwr, getBits 15 0 vccp), (vddgpwr, getBits 15 0 vddg), (vddqpwr, getBits 15 0 vddq),
      (avgpwr, getBits 29 0 prd1), (pciepwr, getBits 15 0 pcie), (c2x3pwr, getBits 15 0 p2x3),
      (c2x4pwr, getBits 15 0 p2x4)]

/-- `power_scnprintf`. -/
def powerScnprintf : Int → Word → List Char :=
  printMembers [avgpwr, pciepwr, c2x3pwr, c2x4pwr, vccppwr, vddgpwr, vddqpwr]

/-- The three counters whose words are packed. -/
inductive Packed
  | temp
  | temp2
  | power
  deriving DecidableEq, Repr

namespace Packed

def restart : Packed → Registers → Word → Word
  | temp => tempRestart
  | temp2 => temp2Restart
  | power => powerRestart

def scnprintf : Packed → Int → Word → List Char
  | temp => tempScnprintf
  | temp2 => temp2Scnprintf
  | power => powerScnprintf

/-- Calls of the `restart` functions in any order, each with what it reads, and the words they return.
`statics` are `temp_data`, `temp2_data` and `power_data`. -/
def words (statics : Packed → Word) : List (Packed × Registers) → List (Packed × Word)
  | [] => []
  | (counter, regs) :: rest =>
    let word := counter.restart regs (statics counter)
    (counter, word) :: words (Function.update statics counter word) rest

end Packed

/-! ### What the labels name -/

/-- The bits of a register that a sensor's value stands in. -/
inductive Origin
  | smc (reg : BitVec 8) (bits : Field)
  /-- The die temperature of this number. -/
  | die (index : Fin 9)

/-- The value in a register, where a read that failed has found zero. The die temperatures stand in
three registers, three of ten bits in each. -/
def Origin.value (regs : Registers) : Origin → Nat
  | smc reg bits => if (regs.gmbusI2cRead reg).1 = 4 then bits.get (regs.gmbusI2cRead reg).2 else 0
  | die index =>
    let registers := [regs.currentDieTemp0, regs.currentDieTemp1, regs.currentDieTemp2]
    (⟨10 * (index.val % 3), 10⟩ : Field).get (registers.getD (index.val / 3) 0)

/-- A label, what it names, and how many bits of that are shown. -/
structure Label where
  name : String
  origin : Origin
  width : Nat

/-- The number shown under a label. -/
def Label.shown (regs : Registers) (l : Label) : Nat := l.origin.value regs % 2 ^ l.width

def Label.text (regs : Registers) (l : Label) : List Char := namedText l.name (l.shown regs)

/-- The low half of an SMC register. -/
def smcLow (name : String) (reg : BitVec 8) : Label := ⟨name, .smc reg ⟨0, 16⟩, 8⟩

/-- The labels of a counter in the order they are printed. -/
def Packed.labels : Packed → List Label
  | temp => [smcLow "tfin" mrSmcTempInlet, smcLow "tvccp" mrSmcTempVccp, smcLow "tgddr" mrSmcTempGddr,
      smcLow "tvddq" mrSmcTempVddq, smcLow "tvddg" mrSmcTempVddg, smcLow "tdie" mrSmcTempCpu,
      smcLow "tfout" mrSmcTempExhaust, ⟨"tdie0", .die 0, 8⟩]
  | temp2 => [⟨"tdie1", .die 1, 8⟩, ⟨"tdie2", .die 2, 8⟩, ⟨"tdie3", .die 3, 8⟩, ⟨"tdie4", .die 4, 8⟩,
      ⟨"tdie5", .die 5, 8⟩, ⟨"tdie6", .die 6, 8⟩, ⟨"tdie7", .die 7, 8⟩, ⟨"tdie8", .die 8, 8⟩]
  | power => [⟨"avgpwr", .smc mrSmcAvgPwr1 ⟨0, 30⟩, 16⟩, smcLow "pciepwr" mrSmcPwrPcie,
      smcLow "c2x3pwr" mrSmcPwr2x3, smcLow "c2x4pwr" mrSmcPwr2x4, smcLow "vccppwr" mrSmcPwrVccp,
      smcLow "vddgpwr" mrSmcPwrVddg, smcLow "vddqpwr" mrSmcPwrVddq]

/-! ### One call -/

theorem printMembers_eq (members : List UnionMember) (limit : Int) (data : Word) :
    printMembers members limit data =
      BoundedText.scnprintf limit (members.map (memberText data)).flatten := by
  have pieces : members.foldl (fun cursor m => cursor.put (memberText data m)) (Cursor.start limit) =
      (Cursor.start limit).putAll (members.map (memberText data)) := by
    rw [Cursor.putAll, List.foldl_map]
  rw [printMembers, pieces, Cursor.putAll_eq]
  rfl

/-- The bits that an SMC label names. -/
theorem value_smc (regs : Registers) (reg : BitVec 8) (bits : Field) :
    (Origin.smc reg bits).value regs = bits.get (regs.mrSmcRd reg) := by
  unfold Origin.value Registers.mrSmcRd
  dsimp only
  split
  · rfl
  · simp [Field.get]

/-- **What a member holds that was assigned**, if no two of those assigned overlap: the low bits of its
own value. -/
theorem get_assignMembers {values : List (UnionMember × BitVec 32)}
    (fits : ∀ f ∈ values.map fun x => x.1.field, f.offset + f.width ≤ 64)
    (apart : (values.map fun x => x.1.field).Pairwise Field.Apart) (value : Word)
    {m : UnionMember} {v : BitVec 32} (member : (m, v) ∈ values) :
    m.field.get (assignMembers value values) = v.toNat % 2 ^ m.field.width := by
  have fields : (values.map fun x => (x.1.field, x.2.toNat)).map Prod.fst =
      values.map fun x => x.1.field := List.map_map
  exact Field.get_assign (fields ▸ fits) (fields ▸ apart) value
    (List.mem_map_of_mem (f := fun x : UnionMember × BitVec 32 => (x.1.field, x.2.toNat)) member)

/-- A label says what a member was assigned. -/
structure Describes (regs : Registers) (values : List (UnionMember × BitVec 32)) (m : UnionMember)
    (l : Label) : Prop where
  name_eq : m.name = l.name
  width_eq : m.field.width = l.width
  assigned : ∃ v, (m, v) ∈ values ∧ v.toNat = l.origin.value regs

theorem describes_smcLow {regs : Registers} {values : List (UnionMember × BitVec 32)} (m : UnionMember)
    (reg : BitVec 8) (byte : m.field.width = 8)
    (member : (m, getBits 15 0 (regs.mrSmcRd reg)) ∈ values) :
    Describes regs values m (smcLow m.name reg) where
  name_eq := rfl
  width_eq := byte
  assigned := ⟨_, member, (toNat_getBits (by decide) _).trans (value_smc regs reg ⟨0, 16⟩).symm⟩

theorem describes_die {regs : Registers} {values : List (UnionMember × BitVec 32)} (m : UnionMember)
    (index : Fin 9) (byte : m.field.width = 8) {v : BitVec 32} (member : (m, v) ∈ values)
    (same : v.toNat = (Origin.die index).value regs) :
    Describes regs values m ⟨m.name, .die index, 8⟩ where
  name_eq := rfl
  width_eq := byte
  assigned := ⟨v, member, same⟩

/-- **What a formatter prints**: its labels, where each says what its member was assigned. -/
theorem printed_of_described {regs : Registers} {values : List (UnionMember × BitVec 32)}
    (fields : List Field) (assigned : values.map (fun x => x.1.field) = fields)
    (fits : ∀ f ∈ fields, f.offset + f.width ≤ 64) (apart : fields.Pairwise Field.Apart) (value : Word)
    {members : List UnionMember} {labels : List Label}
    (described : List.Forall₂ (Describes regs values) members labels) (limit : Int) :
    printMembers members limit (assignMembers value values) =
      BoundedText.scnprintf limit (labels.map (Label.text regs)).flatten := by
  subst assigned
  have texts : members.map (memberText (assignMembers value values)) =
      labels.map (Label.text regs) := by
    induction described with
    | nil => rfl
    | @cons m l _ _ first _ ih =>
      obtain ⟨v, member, same⟩ := first.assigned
      have held := get_assignMembers fits apart value member
      rw [List.map_cons, List.map_cons, ih, memberText, Label.text, Label.shown, held, same,
        first.name_eq, first.width_eq]
  rw [printMembers_eq, texts]

/-- **Each sensor under its own name**, whatever the union held before. -/
theorem scnprintf_restart (counter : Packed) (regs : Registers) (value : Word) (limit : Int) :
    counter.scnprintf limit (counter.restart regs value) =
      BoundedText.scnprintf limit (counter.labels.map (Label.text regs)).flatten := by
  cases counter with
  | temp =>
    refine printed_of_described
      [tdie.field, tfin.field, tfout.field, tvccp.field, tvddg.field, tvddq.field, tgddr.field,
        tdie0.field] rfl (by decide) (by decide) value
      (.cons ?_ (.cons ?_ (.cons ?_ (.cons ?_ (.cons ?_ (.cons ?_ (.cons ?_ (.cons ?_ .nil)))))))) limit
    · exact describes_smcLow tfin mrSmcTempInlet rfl (by simp)
    · exact describes_smcLow tvccp mrSmcTempVccp rfl (by simp)
    · exact describes_smcLow tgddr mrSmcTempGddr rfl (by simp)
    · exact describes_smcLow tvddq mrSmcTempVddq rfl (by simp)
    · exact describes_smcLow tvddg mrSmcTempVddg rfl (by simp)
    · exact describes_smcLow tdie mrSmcTempCpu rfl (by simp)
    · exact describes_smcLow tfout mrSmcTempExhaust rfl (by simp)
    · exact describes_die tdie0 0 rfl (v := getBits 9 0 regs.currentDieTemp0) (by simp)
        (toNat_getBits (by decide) _)
  | temp2 =>
    refine printed_of_described
      [tdie1.field, tdie2.field, tdie3.field, tdie4.field, tdie5.field, tdie6.field, tdie7.field,
        tdie8.field] rfl (by decide) (by decide) value
      (.cons ?_ (.cons ?_ (.cons ?_ (.cons ?_ (.cons ?_ (.cons ?_ (.cons ?_ (.cons ?_ .nil)))))))) limit
    · exact describes_die tdie1 1 rfl (v := getBits 19 10 regs.currentDieTemp0) (by simp)
        (toNat_getBits (by decide) _)
    · exact describes_die tdie2 2 rfl (v := getBits 29 20 regs.currentDieTemp0) (by simp)
        (toNat_getBits (by decide) _)
    · exact describes_die tdie3 3 rfl (v := getBits 9 0 regs.currentDieTemp1) (by simp)
        (toNat_getBits (by decide) _)
    · exact describes_die tdie4 4 rfl (v := getBits 19 10 regs.currentDieTemp1) (by simp)
        (toNat_getBits (by decide) _)
    · exact describes_die tdie5 5 rfl (v := getBits 29 20 regs.currentDieTemp1) (by simp)
        (toNat_getBits (by decide) _)
    · exact describes_die tdie6 6 rfl (v := getBits 9 0 regs.currentDieTemp2) (by simp)
        (toNat_getBits (by decide) _)
    · exact describes_die tdie7 7 rfl (v := getBits 19 10 regs.currentDieTemp2) (by simp)
        (toNat_getBits (by decide) _)
    · exact describes_die tdie8 8 rfl (v := getBits 29 20 regs.currentDieTemp2) (by simp)
        (toNat_getBits (by decide) _)
  | power =>
    refine printed_of_described
      [vccppwr.field, vddgpwr.field, vddqpwr.field, avgpwr.field, pciepwr.field, c2x3pwr.field,
        c2x4pwr.field] rfl (by decide) (by decide) value
      (.cons ?_ (.cons ?_ (.cons ?_ (.cons ?_ (.cons ?_ (.cons ?_ (.cons ?_ .nil))))))) limit
    · exact ⟨rfl, rfl, _, by simp, (toNat_getBits (by decide) _).trans (value_smc ..).symm⟩
    · exact describes_smcLow pciepwr mrSmcPwrPcie rfl (by simp)
    · exact describes_smcLow c2x3pwr mrSmcPwr2x3 rfl (by simp)
    · exact describes_smcLow c2x4pwr mrSmcPwr2x4 rfl (by simp)
    · exact describes_smcLow vccppwr mrSmcPwrVccp rfl (by simp)
    · exact describes_smcLow vddgpwr mrSmcPwrVddg rfl (by simp)
    · exact describes_smcLow vddqpwr mrSmcPwrVddq rfl (by simp)

/-! ### Every pass -/

/-- **What the words of a run print.** In every sequence of calls, from whatever the unions held at first,
the text of each word has under each label the register field it names, as this call read it, and no more
of it than the member's bits; so the value itself where it fits. -/
theorem sensors_print (statics : Packed → Word) (calls : List (Packed × Registers)) (limit : Int) :
    (Packed.words statics calls).map (fun x => x.1.scnprintf limit x.2) =
        calls.map (fun call =>
          BoundedText.scnprintf limit (call.1.labels.map (Label.text call.2)).flatten) ∧
      ∀ (l : Label) (regs : Registers),
        l.origin.value regs < 2 ^ l.width → l.shown regs = l.origin.value regs := by
  refine ⟨?_, fun _ _ fits => Nat.mod_eq_of_lt fits⟩
  induction calls generalizing statics with
  | nil => rfl
  | cons call rest ih =>
    rw [List.map_cons, Packed.words, List.map_cons, ih,
      scnprintf_restart call.1 call.2 (statics call.1) limit]

end Xstats.Micstat
