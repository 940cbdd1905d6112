/-
**The IPMI sensor groups** (`ipmi_cnt.c`): tables, packing, printing.

A group samples up to eight one-byte sensor readings into one 64-bit word. `xstatIpmiRestart` packs
them with a loop that counts down and shifts left; `xstatIpmiScnprintf` unpacks them with a loop that
counts up and shifts right, and prints each under its sensor's name.

* `LoopsTo`: the loop taken one iteration at a time, each with a reading of its own time.
* `byteAt_xstatIpmiRestart`: byte `i` of the sampled word is the reading of sensor `i`, for every
  group of at most eight sensors.
* `xstatIpmiScnprintf_eq`: the text printed is that of the group's members, `(byte + base) * mul`
  under each name, cut only by the limit.
* `value_lt`: no such value leaves the range of `int`.
-/

import Xstats.Lib.BoundedText
import Xstats.Lib.Bytes
import Xstats.Lib.FlatJson
import Xstats.Xstat.Counters

namespace Xstats.Xstat

open BoundedText Bytes FlatJson

/-! ### Tables -/

/-- `struct ipmi_sensor_config`: `base` is an `int16_t`, `sensor_number` and `mul` are `uint8_t`. -/
structure IpmiSensorConfig where
  name : String
  base : BitVec 16
  sensorNumber : Byte
  mul : Byte
  deriving DecidableEq, Repr

/-- The fixed part of `struct ipmi_sensors_ctx`: the configurations of its `ctxs`, in order. -/
structure IpmiSensorsCtx where
  ctxs : List IpmiSensorConfig
  deriving DecidableEq, Repr

/-- The `nctxs` field. -/
def IpmiSensorsCtx.nctxs (ctx : IpmiSensorsCtx) : Nat := ctx.ctxs.length

/-- `__IPMI_CTX`. -/
def ipmiCtx (name : String) (sensorNumber mul : Byte) (base : BitVec 16) : IpmiSensorConfig :=
  { name, sensorNumber, mul, base }

def chamGroupACtx : IpmiSensorsCtx :=
  { ctxs := [ipmiCtx "Fan1A" 48 120 0, ipmiCtx "Fan2A" 50 120 0, ipmiCtx "Fan3A" 52 120 0,
      ipmiCtx "Fan4A" 54 120 0, ipmiCtx "Fan5A" 56 120 0, ipmiCtx "Fan6A" 58 120 0,
      ipmiCtx "Fan7A" 60 120 0] }

def chamGroupBCtx : IpmiSensorsCtx :=
  { ctxs := [ipmiCtx "Fan1B" 49 120 0, ipmiCtx "Fan2B" 51 120 0, ipmiCtx "Fan3B" 53 120 0,
      ipmiCtx "Fan4B" 55 120 0, ipmiCtx "Fan5B" 57 120 0, ipmiCtx "Fan6B" 58 120 0,
      ipmiCtx "Fan7B" 61 120 0] }

def chamMiscCtx : IpmiSensorsCtx :=
  { ctxs := [ipmiCtx "tinlet" 4 1 (-128), ipmiCtx "toutlet" 1 1 (-128),
      ipmiCtx "tp0" 14 1 (-128), ipmiCtx "tp1" 15 1 (-128), ipmiCtx "totpwr" 119 14 0] }

/-- What the `data` pointers of `xstat_ipmi_cnts` point to. -/
def xstatIpmiCtx : Fin 3 → IpmiSensorsCtx := ![chamGroupACtx, chamGroupBCtx, chamMiscCtx]

/-! ### Packing -/

/-- Iteration `i` of the loop in `xstat_ipmi_restart`, when the sensor's reading is `reading`. -/
def xstatIpmiRestartIter (nctxs i : Nat) (ret : Word) (reading : Byte) : Word :=
  (if i ≠ nctxs - 1 then ret <<< 8 else ret) ||| reading.setWidth 64

/-- The iterations `i - 1` down to `0`; `readings k` is the reading that iteration `k` finds. -/
def xstatIpmiRestartLoop (nctxs : Nat) (readings : Nat → Byte) : Nat → Word → Word
  | 0, ret => ret
  | i + 1, ret =>
    xstatIpmiRestartLoop nctxs readings i (xstatIpmiRestartIter nctxs i ret (readings i))

/-- `xstat_ipmi_restart`, given the reading each iteration finds in its sensor's context. -/
def xstatIpmiRestart (ctx : IpmiSensorsCtx) (readings : Nat → Byte) : Word :=
  xstatIpmiRestartLoop ctx.nctxs readings ctx.nctxs 0

/-- The bytes packed before iteration `i - 1`: readings `i` and up, from the low end. -/
def PackedFrom (nctxs : Nat) (readings : Nat → Byte) (i : Nat) (ret : Word) : Prop :=
  (i = nctxs → ret = 0) ∧ ∀ k, i ≤ k → k < nctxs → byteAt ret (k - i) = readings k

theorem packedFrom_start (nctxs : Nat) (readings : Nat → Byte) :
    PackedFrom nctxs readings nctxs 0 :=
  ⟨fun _ => rfl, fun _ above below => absurd below (Nat.not_lt.mpr above)⟩

/-- One iteration packs one more reading. -/
theorem PackedFrom.iter {nctxs i : Nat} {readings : Nat → Byte} {ret : Word} (few : nctxs ≤ 8)
    (inside : i < nctxs) (packed : PackedFrom nctxs readings (i + 1) ret) :
    PackedFrom nctxs readings i (xstatIpmiRestartIter nctxs i ret (readings i)) := by
  refine ⟨fun last => absurd last inside.ne, fun k above below => ?_⟩
  unfold xstatIpmiRestartIter
  by_cases first : i = nctxs - 1
  · have here : k = i := by omega
    rw [packed.1 (by omega), here, Nat.sub_self]
    simp only [first, ne_eq, not_true_eq_false, if_false]
    exact byteAt_or_zero _
  · simp only [first, ne_eq, not_false_eq_true, if_true]
    change byteAt (shiftIn ret (readings i)) (k - i) = readings k
    rcases Nat.eq_or_lt_of_le above with here | higher
    · rw [← here, Nat.sub_self]
      exact byteAt_shiftIn_zero _ _
    · rw [show k - i = (k - (i + 1)) + 1 by omega, byteAt_shiftIn_succ _ _ (by omega)]
      exact packed.2 k higher below

theorem packedFrom_loop {nctxs : Nat} (few : nctxs ≤ 8) (readings : Nat → Byte) (i : Nat)
    {ret : Word} (inside : i ≤ nctxs) (packed : PackedFrom nctxs readings i ret) :
    PackedFrom nctxs readings 0 (xstatIpmiRestartLoop nctxs readings i ret) := by
  induction i generalizing ret with
  | zero => exact packed
  | succ i ih => exact ih (by omega) (packed.iter few inside)

/-- What is left of the loop before iteration `k - 1` ends in the word of the whole loop, if the
iterations before it found `found`, and whatever the later ones find. -/
def LoopsTo (nctxs : Nat) (found : Nat → Byte) (k : Nat) (ret : Word) : Prop :=
  ∀ readings : Nat → Byte, (∀ i, k ≤ i → readings i = found i) →
    xstatIpmiRestartLoop nctxs readings k ret = xstatIpmiRestartLoop nctxs readings nctxs 0

theorem loopsTo_start (nctxs : Nat) (found : Nat → Byte) : LoopsTo nctxs found nctxs 0 :=
  fun _ _ => rfl

/-- One iteration more. What it finds need not be known before. -/
theorem LoopsTo.iter {nctxs i : Nat} {found found' : Nat → Byte} {ret : Word}
    (loops : LoopsTo nctxs found (i + 1) ret) (same : ∀ k, i < k → found' k = found k) :
    LoopsTo nctxs found' i (xstatIpmiRestartIter nctxs i ret (found' i)) := by
  intro readings agree
  rw [← agree i le_rfl]
  exact loops readings fun k above => (agree k (Nat.le_of_succ_le above)).trans (same k above)

/-- At the end of the loop `ret` is the word. -/
theorem LoopsTo.word {ctx : IpmiSensorsCtx} {found : Nat → Byte} {ret : Word}
    (loops : LoopsTo ctx.nctxs found 0 ret) : ret = xstatIpmiRestart ctx found :=
  loops found fun _ _ => rfl

/-- **Byte `i` of the sampled word is what iteration `i` read.** -/
theorem byteAt_xstatIpmiRestart {ctx : IpmiSensorsCtx} (few : ctx.nctxs ≤ 8)
    (readings : Nat → Byte) {i : Nat} (inside : i < ctx.nctxs) :
    byteAt (xstatIpmiRestart ctx readings) i = readings i :=
  (packedFrom_loop few readings ctx.nctxs le_rfl (packedFrom_start _ _)).2 i (Nat.zero_le i) inside

/-! ### Printing -/

/-- The `int` printed for a sensor whose byte is `reading`. -/
def IpmiSensorConfig.value (config : IpmiSensorConfig) (reading : Byte) : Int :=
  (reading.toNat + config.base.toInt) * config.mul.toNat

/-- The value fits an `int`, for any base and mul, so the arithmetic in `int` is exact. -/
theorem value_lt (config : IpmiSensorConfig) (reading : Byte) :
    (config.value reading).natAbs < 2 ^ 31 := by
  have byte : reading.toNat < 256 := reading.isLt
  have factor : config.mul.toNat < 256 := config.mul.isLt
  have low : -2 ^ 15 ≤ config.base.toInt := BitVec.le_toInt _
  have high : config.base.toInt < 2 ^ 15 := BitVec.toInt_lt
  have sum : ((reading.toNat : Int) + config.base.toInt).natAbs ≤ 33023 := by omega
  unfold IpmiSensorConfig.value
  rw [Int.natAbs_mul, Int.natAbs_natCast]
  calc ((reading.toNat : Int) + config.base.toInt).natAbs * config.mul.toNat
      ≤ 33023 * 255 := Nat.mul_le_mul sum (by omega)
    _ < 2 ^ 31 := by decide

/-- The loop of `xstat_ipmi_scnprintf` from iteration `i` on, over the remaining sensors. -/
def xstatIpmiScnprintfLoop : List IpmiSensorConfig → Nat → Word → Cursor → Cursor
  | [], _, _, cursor => cursor
  | config :: rest, i, data, cursor =>
    let val : Int := (data &&& 0xff).toNat
    let val := val + config.base.toInt
    let val := val * config.mul.toNat
    let field := '"' :: config.name.toList ++ ('"' :: ':' :: Decimal.signed val)
    xstatIpmiScnprintfLoop rest (i + 1) (data >>> 8)
      (cursor.put (if i = 0 then field else ',' :: field))

/-- `xstat_ipmi_scnprintf` once its context is known: the characters written. -/
def xstatIpmiScnprintf (ctx : IpmiSensorsCtx) (limit : Int) (data : Word) : List Char :=
  (xstatIpmiScnprintfLoop ctx.ctxs 0 data (Cursor.start limit)).text

/-- The names and values a word stands for. -/
def IpmiSensorsCtx.members (ctx : IpmiSensorsCtx) (data : Word) : List Member :=
  ctx.ctxs.mapIdx fun i config => (config.name.toList, config.value (byteAt data i))

theorem members_cons (config : IpmiSensorConfig) (rest : List IpmiSensorConfig) (data : Word) :
    IpmiSensorsCtx.members ⟨config :: rest⟩ data =
      (config.name.toList, config.value (byteAt data 0)) ::
        IpmiSensorsCtx.members ⟨rest⟩ (data >>> 8) := by
  simp [IpmiSensorsCtx.members, List.mapIdx_cons, byteAt_shiftRight]

theorem keys_members (ctx : IpmiSensorsCtx) (data : Word) :
    (ctx.members data).map Prod.fst = ctx.ctxs.map fun config => config.name.toList := by
  obtain ⟨configs⟩ := ctx
  induction configs generalizing data with
  | nil => rfl
  | cons config rest ih => rw [members_cons, List.map_cons, List.map_cons, ih]

/-- The characters of one sensor, from the low byte of what is left of the word. -/
theorem renderMember_value (config : IpmiSensorConfig) (data : Word) :
    renderMember (config.name.toList, config.value (byteAt data 0)) =
      '"' :: config.name.toList ++ ('"' :: ':' :: Decimal.signed
        (((data &&& 0xff).toNat + config.base.toInt) * config.mul.toNat)) := by
  rw [toNat_and_mask]
  rfl

/-- After the first sensor every field has its comma in front. -/
theorem xstatIpmiScnprintfLoop_succ (configs : List IpmiSensorConfig) (i : Nat) (data : Word)
    (cursor : Cursor) :
    xstatIpmiScnprintfLoop configs (i + 1) data cursor =
      cursor.putAll ((IpmiSensorsCtx.members ⟨configs⟩ data).map fun m => ',' :: renderMember m) := by
  induction configs generalizing i data cursor with
  | nil => rfl
  | cons config rest ih =>
    rw [members_cons, List.map_cons, Cursor.putAll_cons, renderMember_value]
    exact ih (i + 1) (data >>> 8) _

/-- **The text of a group**: its members, cut only by the limit. -/
theorem xstatIpmiScnprintf_eq {ctx : IpmiSensorsCtx} (some : ctx.ctxs ≠ []) (limit : Int)
    (data : Word) :
    xstatIpmiScnprintf ctx limit data = scnprintf limit (renderMembers (ctx.members data)) := by
  obtain ⟨_ | ⟨config, rest⟩⟩ := ctx
  · exact absurd rfl some
  · have first : xstatIpmiScnprintfLoop (config :: rest) 0 data (Cursor.start limit) =
        xstatIpmiScnprintfLoop rest 1 (data >>> 8) ((Cursor.start limit).put
          (renderMember (config.name.toList, config.value (byteAt data 0)))) := by
      rw [renderMember_value]
      rfl
    rw [xstatIpmiScnprintf, first, xstatIpmiScnprintfLoop_succ, ← Cursor.putAll_cons,
      Cursor.putAll_eq, members_cons, renderMembers_eq_flatten]
    rfl

end Xstats.Xstat
