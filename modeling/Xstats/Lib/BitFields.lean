/-
**Fields of a word.**

A field is a range of the bits of a word, such as the bits of a register that hold one reading or a
member of a packed structure. `get` reads it as a number, and `put` writes as many of a number's low bits
as there is room for.

* `get_put`, `get_put_of_apart`: a field that was written holds what was written, and one that does not
  overlap it holds what it held.
* `get_assign`: so that after assignments to fields of which no two overlap, in any order, each field
  holds its own value, whatever the word was before.
* `eq_of_get_eq`: fields that cover a word determine it.
-/

import Mathlib.Data.Nat.Bitwise

namespace BitFields

/-- A range of bits. -/
structure Field where
  offset : Nat
  width : Nat
  deriving DecidableEq, Repr

namespace Field

variable {n : Nat} {f g : Field} {word : BitVec n}

/-- Whether a bit belongs to the field. -/
def Has (f : Field) (i : Nat) : Prop := f.offset ≤ i ∧ i < f.offset + f.width

instance (f : Field) (i : Nat) : Decidable (f.Has i) := inferInstanceAs (Decidable (_ ∧ _))

/-- Fields with no bit in common. -/
def Apart (f g : Field) : Prop := f.offset + f.width ≤ g.offset ∨ g.offset + g.width ≤ f.offset

instance (f g : Field) : Decidable (f.Apart g) := inferInstanceAs (Decidable (_ ∨ _))

/-- The number in a field. -/
def get (f : Field) (word : BitVec n) : Nat := (word.toNat >>> f.offset) % 2 ^ f.width

/-- Write the low bits of a number to a field. -/
def put (f : Field) (value : Nat) (word : BitVec n) : BitVec n :=
  let mask := BitVec.ofNat n (2 ^ f.width - 1) <<< f.offset
  (word &&& ~~~mask) ||| ((BitVec.ofNat n value <<< f.offset) &&& mask)

theorem get_lt (f : Field) (word : BitVec n) : f.get word < 2 ^ f.width :=
  Nat.mod_lt _ (Nat.two_pow_pos _)

theorem get_le (f : Field) (word : BitVec n) : f.get word ≤ word.toNat :=
  (Nat.mod_le _ _).trans (by rw [Nat.shiftRight_eq_div_pow]; exact Nat.div_le_self _ _)

theorem testBit_get (f : Field) (word : BitVec n) (i : Nat) :
    (f.get word).testBit i = (decide (i < f.width) && word.getLsbD (f.offset + i)) := by
  rw [get, Nat.testBit_mod_two_pow, Nat.testBit_shiftRight]
  rfl

theorem getLsbD_put (f : Field) (value : Nat) (word : BitVec n) {i : Nat} (inside : i < n) :
    (f.put value word).getLsbD i =
      if f.Has i then value.testBit (i - f.offset) else word.getLsbD i := by
  have shifted : i - f.offset < n := by omega
  simp only [put, Has, BitVec.getLsbD_or, BitVec.getLsbD_and, BitVec.getLsbD_not,
    BitVec.getLsbD_shiftLeft, BitVec.getLsbD_ofNat, Nat.testBit_two_pow_sub_one, inside, shifted,
    decide_true, Bool.true_and]
  by_cases low : i < f.offset
  · simp [low, Nat.not_le.mpr low]
  · by_cases high : i - f.offset < f.width
    · simp [low, high, Nat.not_lt.mp low, show i < f.offset + f.width by omega]
    · simp [low, high, show ¬ i < f.offset + f.width by omega]

/-- **Reading what was written**: as much of it as there is room for. -/
theorem get_put (f : Field) (value : Nat) (word : BitVec n) (fits : f.offset + f.width ≤ n) :
    f.get (f.put value word) = value % 2 ^ f.width := by
  apply Nat.eq_of_testBit_eq
  intro i
  rw [testBit_get, Nat.testBit_mod_two_pow]
  by_cases inside : i < f.width
  · have has : f.Has (f.offset + i) := ⟨by omega, by omega⟩
    rw [getLsbD_put f value word (by omega), if_pos has, Nat.add_sub_cancel_left]
  · simp [inside]

/-- **Reading what was not written.** -/
theorem get_put_of_apart (apart : f.Apart g) (value : Nat) (word : BitVec n) :
    f.get (g.put value word) = f.get word := by
  apply Nat.eq_of_testBit_eq
  intro i
  rw [testBit_get, testBit_get]
  by_cases inside : i < f.width
  · by_cases within : f.offset + i < n
    · have hasNot : ¬ g.Has (f.offset + i) := by
        rcases apart with before | after
        · exact fun has => by have := has.1; omega
        · exact fun has => by have := has.2; omega
      rw [getLsbD_put g value word within, if_neg hasNot]
    · rw [BitVec.getLsbD_of_ge _ _ (by omega), BitVec.getLsbD_of_ge _ _ (by omega)]
  · simp [inside]

/-- Assignments, the first one first. -/
def assign (word : BitVec n) (values : List (Field × Nat)) : BitVec n :=
  values.foldl (fun word x => x.1.put x.2 word) word

theorem get_assign_of_apart {values : List (Field × Nat)} (apart : ∀ x ∈ values, f.Apart x.1)
    (word : BitVec n) : f.get (assign word values) = f.get word := by
  induction values generalizing word with
  | nil => rfl
  | cons x rest ih =>
    have later := ih (fun y member => apart y (List.mem_cons_of_mem _ member)) (x.1.put x.2 word)
    exact later.trans (get_put_of_apart (apart x List.mem_cons_self) x.2 word)

/-- **Each field holds its own value** after assignments to fields of which no two overlap. -/
theorem get_assign {values : List (Field × Nat)}
    (fits : ∀ f ∈ values.map Prod.fst, f.offset + f.width ≤ n)
    (apart : (values.map Prod.fst).Pairwise Apart) (word : BitVec n) {x : Field × Nat}
    (member : x ∈ values) : x.1.get (assign word values) = x.2 % 2 ^ x.1.width := by
  induction values generalizing word with
  | nil => cases member
  | cons y rest ih =>
    obtain ⟨first, others⟩ := List.pairwise_cons.mp apart
    rcases List.mem_cons.mp member with rfl | later
    · have apartFromRest : ∀ y ∈ rest, x.1.Apart y.1 :=
        fun y inside => first y.1 (List.mem_map_of_mem inside)
      have kept := get_assign_of_apart apartFromRest (x.1.put x.2 word)
      exact kept.trans (get_put x.1 x.2 word (fits x.1 List.mem_cons_self))
    · exact ih (fun f inside => fits f (List.mem_cons_of_mem _ inside)) others (y.1.put y.2 word) later

/-- **A word is determined by fields that cover it.** -/
theorem eq_of_get_eq {fields : List Field} (covered : ∀ i < n, ∃ f ∈ fields, f.Has i)
    {first second : BitVec n} (same : ∀ f ∈ fields, f.get first = f.get second) : first = second := by
  apply BitVec.eq_of_getLsbD_eq
  intro i inside
  obtain ⟨f, member, low, high⟩ := covered i inside
  have bits := congrArg (Nat.testBit · (i - f.offset)) (same f member)
  simpa [testBit_get, show i - f.offset < f.width by omega, show f.offset + (i - f.offset) = i by omega]
    using bits

/-- Widening with the sign leaves the fields of the narrow word alone. -/
theorem get_signExtend (fits : f.offset + f.width ≤ n) {m : Nat} (wide : n ≤ m) (word : BitVec n) :
    f.get (word.signExtend m) = f.get word := by
  apply Nat.eq_of_testBit_eq
  intro i
  rw [testBit_get, testBit_get]
  by_cases inside : i < f.width
  · rw [BitVec.getLsbD_signExtend]
    simp [show f.offset + i < m by omega, show f.offset + i < n by omega]
  · simp [inside]

/-- A shift and a mask. -/
theorem toNat_shiftRight_and (f : Field) (word : BitVec n) (fits : f.width ≤ n) :
    ((word >>> f.offset) &&& BitVec.ofNat n (2 ^ f.width - 1)).toNat = f.get word := by
  have mask : (BitVec.ofNat n (2 ^ f.width - 1)).toNat = 2 ^ f.width - 1 := by
    have positive := Nat.two_pow_pos f.width
    have least := Nat.pow_le_pow_right (by decide : 0 < 2) fits
    rw [BitVec.toNat_ofNat]
    exact Nat.mod_eq_of_lt (by omega)
  rw [BitVec.toNat_and, BitVec.toNat_ushiftRight, mask, Nat.and_two_pow_sub_one_eq_mod]
  rfl

end Field

end BitFields
