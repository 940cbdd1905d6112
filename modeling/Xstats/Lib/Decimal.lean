/-
**Decimal numbers as text.**

`natural` and `signed` write a number the way `printf` writes `%llu` and `%d`: no leading zero, and
a minus sign before a negative one. `Natural` and `Signed` are the grammar of such numbers, and
`readNatural` and `readSigned` read one from the front of a text.

* `readNatural_sound`, `readSigned_sound`: what is read is a number of the grammar.
* `readNatural_natural`, `readSigned_signed`: a number that was written, followed by anything but a
  digit, is read back exactly.
* `length_natural_le`, `length_signed_le`: how long the text can be.
-/

import Mathlib

namespace Decimal

/-! ### Writing -/

/-- The digits of a natural number. -/
def natural (n : Nat) : List Char := Nat.toDigits 10 n

/-- An integer, with a minus sign if it is negative. -/
def signed (z : Int) : List Char :=
  if z < 0 then '-' :: natural z.natAbs else natural z.natAbs

theorem signed_natCast (n : Nat) : signed (n : Int) = natural n := by
  simp [signed]

theorem isDigit_of_mem_natural {n : Nat} {c : Char} (member : c ∈ natural n) : c.isDigit :=
  Nat.isDigit_of_mem_toDigits (by decide) (by decide) member

theorem natural_ne_nil (n : Nat) : natural n ≠ [] := Nat.toDigits_ne_nil

/-- A positive number does not start with a zero. -/
theorem head_natural_ne_zero {n : Nat} (positive : 0 < n) : (natural n).head? ≠ some '0' := by
  induction n using Nat.strongRecOn with
  | ind n ih =>
    unfold natural
    rw [Nat.toDigits_eq_if (by decide)]
    by_cases small : n < 10
    · simp only [small, if_true, List.head?_cons, ne_eq, Option.some.injEq]
      exact fun zero => absurd (Nat.digitChar_eq_zero.mp zero) positive.ne'
    · have higher := ih (n / 10) (Nat.div_lt_self positive (by decide)) (by omega)
      obtain ⟨d, ds, front⟩ := List.exists_cons_of_ne_nil (natural_ne_nil (n / 10))
      rw [if_neg small]
      unfold natural at front higher
      rw [front] at higher ⊢
      exact higher

theorem length_natural_le {n k : Nat} (positive : 0 < k) (below : n < 10 ^ k) :
    (natural n).length ≤ k :=
  (Nat.length_toDigits_le_iff (by decide) positive).mpr below

theorem length_signed_le {z : Int} {k : Nat} (positive : 0 < k) (below : z.natAbs < 10 ^ k) :
    (signed z).length ≤ k + 1 := by
  have digits := length_natural_le positive below
  unfold signed
  split
  · simpa using digits
  · omega

/-! ### The grammar -/

/-- A natural number: zero, or digits that do not start with a zero. -/
inductive Natural : List Char → Nat → Prop
  | zero : Natural ['0'] 0
  | digits {d : Char} {ds : List Char} : d.isDigit → d ≠ '0' → (∀ c ∈ ds, c.isDigit) →
      Natural (d :: ds) (Nat.ofDigitChars 10 (d :: ds) 0)

/-- An integer: a natural number, or one after a minus sign. -/
inductive Signed : List Char → Int → Prop
  | nonneg {text : List Char} {n : Nat} : Natural text n → Signed text n
  | neg {text : List Char} {n : Nat} : Natural text n → Signed ('-' :: text) (-n)

/-! ### Reading -/

/-- Read a natural number off the front of a text. -/
def readNatural (text : List Char) : Option (Nat × List Char) :=
  match text.takeWhile Char.isDigit with
  | [] => none
  | d :: ds =>
    if d = '0' ∧ ds ≠ [] then none
    else some (Nat.ofDigitChars 10 (d :: ds) 0, text.dropWhile Char.isDigit)

/-- Read an integer off the front of a text. -/
def readSigned : List Char → Option (Int × List Char)
  | '-' :: text => (readNatural text).map fun read => (-(read.1 : Int), read.2)
  | text => (readNatural text).map fun read => ((read.1 : Int), read.2)

theorem readNatural_sound {text rest : List Char} {n : Nat}
    (read : readNatural text = some (n, rest)) :
    ∃ digits, text = digits ++ rest ∧ Natural digits n := by
  unfold readNatural at read
  have parts : text.takeWhile Char.isDigit ++ text.dropWhile Char.isDigit = text :=
    List.takeWhile_append_dropWhile
  have digit : ∀ c ∈ text.takeWhile Char.isDigit, c.isDigit := fun c => List.mem_takeWhile_imp
  cases front : text.takeWhile Char.isDigit with
  | nil => simp [front] at read
  | cons d ds =>
    rw [front] at read parts digit
    simp only at read
    split at read
    · cases read
    · rename_i canonical
      cases read
      refine ⟨d :: ds, parts.symm, ?_⟩
      by_cases zero : d = '0'
      · have alone : ds = [] := by
          by_contra more
          exact canonical ⟨zero, more⟩
        subst zero alone
        exact Natural.zero
      · exact Natural.digits (digit d List.mem_cons_self) zero
          fun c member => digit c (List.mem_cons_of_mem _ member)

theorem readSigned_sound {text rest : List Char} {z : Int}
    (read : readSigned text = some (z, rest)) :
    ∃ number, text = number ++ rest ∧ Signed number z := by
  unfold readSigned at read
  split at read
  · rename_i text
    obtain ⟨⟨n, rest'⟩, found, same⟩ := Option.map_eq_some_iff.mp read
    obtain ⟨digits, rfl, natural⟩ := readNatural_sound found
    cases same
    exact ⟨'-' :: digits, rfl, .neg natural⟩
  · obtain ⟨⟨n, rest'⟩, found, same⟩ := Option.map_eq_some_iff.mp read
    obtain ⟨digits, rfl, natural⟩ := readNatural_sound found
    cases same
    exact ⟨digits, rfl, .nonneg natural⟩

/-- **What `natural` wrote is read back**, when no digit follows. -/
theorem readNatural_natural (n : Nat) {rest : List Char}
    (ends : ∀ c ∈ rest.head?, ¬ c.isDigit) :
    readNatural (natural n ++ rest) = some (n, rest) := by
  have digits : ∀ c ∈ natural n, c.isDigit := fun c member => isDigit_of_mem_natural member
  have stop : rest.takeWhile Char.isDigit = [] ∧ rest.dropWhile Char.isDigit = rest := by
    cases rest with
    | nil => exact ⟨rfl, rfl⟩
    | cons c rest =>
      have notDigit : ¬ c.isDigit := ends c rfl
      simp [notDigit]
  have front : (natural n ++ rest).takeWhile Char.isDigit = natural n := by
    rw [List.takeWhile_append_of_pos digits, stop.1, List.append_nil]
  have back : (natural n ++ rest).dropWhile Char.isDigit = rest := by
    rw [List.dropWhile_append_of_pos digits, stop.2]
  unfold readNatural
  rw [front, back]
  have value : Nat.ofDigitChars 10 (natural n) 0 = n := Nat.ofDigitChars_ten_toDigits
  cases shape : natural n with
  | nil => exact absurd shape (natural_ne_nil n)
  | cons d ds =>
    have canonical : ¬ (d = '0' ∧ ds ≠ []) := by
      rintro ⟨zero, more⟩
      by_cases positive : 0 < n
      · exact head_natural_ne_zero positive (by rw [shape, zero]; rfl)
      · have isZero : natural n = ['0'] := by
          rw [Nat.eq_zero_of_not_pos positive]
          exact Nat.toDigits_zero 10
        rw [isZero] at shape
        cases shape
        exact more rfl
    simp only [if_neg canonical]
    rw [← shape, value]

/-- **What `signed` wrote is read back**, when no digit follows. -/
theorem readSigned_signed (z : Int) {rest : List Char}
    (ends : ∀ c ∈ rest.head?, ¬ c.isDigit) :
    readSigned (signed z ++ rest) = some (z, rest) := by
  unfold signed
  by_cases negative : z < 0
  · rw [if_pos negative, List.cons_append]
    simp only [readSigned, readNatural_natural z.natAbs ends, Option.map_some]
    congr 2
    omega
  · rw [if_neg negative]
    have plain : ∀ text, natural z.natAbs ++ rest ≠ '-' :: text := by
      intro text minus
      cases shape : natural z.natAbs with
      | nil => exact natural_ne_nil _ shape
      | cons d ds =>
        have digit : d.isDigit := isDigit_of_mem_natural (n := z.natAbs) (by simp [shape])
        rw [shape] at minus
        cases minus
        exact absurd digit (by decide)
    unfold readSigned
    split
    · rename_i text same
      exact absurd same (plain text)
    · rw [readNatural_natural z.natAbs ends, Option.map_some]
      congr 2
      omega

end Decimal
