/-
**JSON objects whose members are integers.**

`Object text members` is the part of the JSON grammar (RFC 8259) that derives an object of string
keys, without escapes, and integer values. `parse` reads such an object and `render` writes it
without white space.

* `parse_sound`: whatever `parse` accepts is an object of the grammar, with the members it returns.
* `parse_render`: `parse` gives back exactly the members that were rendered.
* `numberUnder_render`: where the keys differ, so does reading the number under a key.
-/

import Xstats.Lib.Decimal

namespace FlatJson

open Decimal

/-- A key and its value. -/
abbrev Member := List Char × Int

/-! ### The grammar -/

/-- The characters a JSON string holds without an escape. -/
def unescaped (c : Char) : Bool := decide (0x20 ≤ c.toNat) && c != '"' && c != '\\'

/-- `string ":" number` -/
inductive MemberText : List Char → Member → Prop
  | mk {key number : List Char} {z : Int} : (∀ c ∈ key, unescaped c) → Signed number z →
      MemberText ('"' :: key ++ ('"' :: ':' :: number)) (key, z)

/-- `member *( "," member )` -/
inductive MembersText : List Char → List Member → Prop
  | one {text : List Char} {m : Member} : MemberText text m → MembersText text [m]
  | more {text rest : List Char} {m : Member} {ms : List Member} :
      MemberText text m → MembersText rest ms → MembersText (text ++ ',' :: rest) (m :: ms)

/-- `"{" members "}"` -/
inductive Object : List Char → List Member → Prop
  | mk {body : List Char} {ms : List Member} : MembersText body ms →
      Object ('{' :: body ++ ['}']) ms

/-! ### Reading -/

/-- Read a string off the front of a text. -/
def readKey : List Char → Option (List Char × List Char)
  | '"' :: text =>
    match text.dropWhile unescaped with
    | '"' :: rest => some (text.takeWhile unescaped, rest)
    | _ => none
  | _ => none

/-- Read a member off the front of a text. -/
def readMember (text : List Char) : Option (Member × List Char) :=
  match readKey text with
  | some (key, ':' :: rest) => (readSigned rest).map fun read => ((key, read.1), read.2)
  | _ => none

/-- Read at most `fuel` members, with commas between them. -/
def readMembers : Nat → List Char → Option (List Member × List Char)
  | 0, _ => none
  | fuel + 1, text =>
    match readMember text with
    | none => none
    | some (m, ',' :: rest) => (readMembers fuel rest).map fun read => (m :: read.1, read.2)
    | some (m, rest) => some ([m], rest)

/-- Read a text that is one object and nothing else. -/
def parse : List Char → Option (List Member)
  | '{' :: body =>
    match readMembers body.length body with
    | some (ms, ['}']) => some ms
    | _ => none
  | _ => none

theorem readKey_sound {text rest key : List Char} (read : readKey text = some (key, rest)) :
    text = '"' :: key ++ '"' :: rest ∧ ∀ c ∈ key, unescaped c := by
  unfold readKey at read
  split at read
  · rename_i inner
    split at read
    · rename_i after quoted
      cases read
      refine ⟨?_, fun c => List.mem_takeWhile_imp⟩
      rw [List.cons_append, ← quoted, List.takeWhile_append_dropWhile]
    · cases read
  · cases read

theorem readMember_sound {text rest : List Char} {m : Member}
    (read : readMember text = some (m, rest)) :
    ∃ front, text = front ++ rest ∧ MemberText front m := by
  unfold readMember at read
  split at read
  · rename_i key after found
    obtain ⟨rfl, clean⟩ := readKey_sound found
    obtain ⟨⟨z, rest'⟩, number, same⟩ := Option.map_eq_some_iff.mp read
    obtain ⟨digits, rfl, signed⟩ := readSigned_sound number
    cases same
    exact ⟨_, by simp, MemberText.mk clean signed⟩
  · cases read

theorem readMembers_sound {fuel : Nat} {text rest : List Char} {ms : List Member}
    (read : readMembers fuel text = some (ms, rest)) :
    ∃ front, text = front ++ rest ∧ MembersText front ms := by
  induction fuel generalizing text ms rest with
  | zero => cases read
  | succ fuel ih =>
    unfold readMembers at read
    split at read
    · cases read
    · rename_i m after found
      obtain ⟨front, rfl, member⟩ := readMember_sound found
      obtain ⟨⟨ms', rest'⟩, tail, same⟩ := Option.map_eq_some_iff.mp read
      obtain ⟨back, rfl, members⟩ := ih tail
      cases same
      exact ⟨front ++ ',' :: back, by simp, .more member members⟩
    · rename_i m after _ found
      obtain ⟨front, rfl, member⟩ := readMember_sound found
      cases read
      exact ⟨front, rfl, .one member⟩

/-- **What `parse` accepts is an object of the grammar.** -/
theorem parse_sound {text : List Char} {ms : List Member} (parsed : parse text = some ms) :
    Object text ms := by
  unfold parse at parsed
  split at parsed
  · split at parsed
    · rename_i ms' found
      obtain ⟨front, rfl, members⟩ := readMembers_sound found
      cases parsed
      exact Object.mk members
    · cases parsed
  · cases parsed

/-! ### Writing -/

/-- A member as text. -/
def renderMember (m : Member) : List Char := '"' :: m.1 ++ ('"' :: ':' :: signed m.2)

/-- Members with commas between them. -/
def renderMembers : List Member → List Char
  | [] => []
  | [m] => renderMember m
  | m :: m' :: ms => renderMember m ++ ',' :: renderMembers (m' :: ms)

/-- The object with the given members. -/
def render (ms : List Member) : List Char := '{' :: renderMembers ms ++ ['}']

theorem renderMembers_cons (m : Member) {ms : List Member} (more : ms ≠ []) :
    renderMembers (m :: ms) = renderMember m ++ ',' :: renderMembers ms := by
  cases ms with
  | nil => exact absurd rfl more
  | cons m' ms => rfl

/-- After the first member every member has its comma in front. -/
theorem renderMembers_eq_flatten (m : Member) (ms : List Member) :
    renderMembers (m :: ms) = (renderMember m :: ms.map fun m' => ',' :: renderMember m').flatten := by
  induction ms generalizing m with
  | nil => simp [renderMembers]
  | cons m' ms ih =>
    rw [renderMembers_cons m (by simp), ih m']
    simp

/-- Rendering two runs of members is rendering them with a comma between. -/
theorem renderMembers_append {first second : List Member} (some : first ≠ []) (more : second ≠ []) :
    renderMembers (first ++ second) = renderMembers first ++ ',' :: renderMembers second := by
  induction first with
  | nil => exact absurd rfl some
  | cons m ms ih =>
    cases ms with
    | nil => exact renderMembers_cons m more
    | cons m' ms =>
      have tail := ih (by simp)
      rw [List.cons_append, renderMembers_cons m (by simp), tail, renderMembers_cons m (by simp)]
      simp

theorem readMember_renderMember {m : Member} (clean : ∀ c ∈ m.1, unescaped c) {rest : List Char}
    (ends : ∀ c ∈ rest.head?, ¬ c.isDigit) :
    readMember (renderMember m ++ rest) = some (m, rest) := by
  obtain ⟨key, z⟩ := m
  have shape : renderMember (key, z) ++ rest = '"' :: (key ++ '"' :: ':' :: (signed z ++ rest)) := by
    simp [renderMember]
  have stop : unescaped '"' = false := by decide
  have found : readKey ('"' :: (key ++ '"' :: ':' :: (signed z ++ rest)))
      = some (key, ':' :: (signed z ++ rest)) := by
    simp only [readKey, List.dropWhile_append_of_pos clean, List.takeWhile_append_of_pos clean]
    simp [stop]
  rw [shape]
  simp only [readMember, found, readSigned_signed z ends, Option.map_some]

theorem readMembers_renderMembers {ms : List Member} (some : ms ≠ [])
    (clean : ∀ m ∈ ms, ∀ c ∈ m.1, unescaped c) {fuel : Nat} (enough : ms.length ≤ fuel) :
    readMembers fuel (renderMembers ms ++ ['}']) = .some (ms, ['}']) := by
  induction fuel generalizing ms with
  | zero =>
    exact absurd (List.length_eq_zero_iff.mp (Nat.le_zero.mp enough)) some
  | succ fuel ih =>
    cases ms with
    | nil => exact absurd rfl some
    | cons m ms =>
      have first := clean m List.mem_cons_self
      by_cases more : ms = []
      · subst more
        unfold readMembers
        rw [show renderMembers [m] = renderMember m from rfl,
          readMember_renderMember first (by simp)]
        rfl
      · have tail := ih more (fun m' member => clean m' (List.mem_cons_of_mem _ member))
          (Nat.le_of_succ_le_succ enough)
        unfold readMembers
        rw [renderMembers_cons m more, List.append_assoc, List.cons_append,
          readMember_renderMember first (by simp)]
        simp only [tail, Option.map_some]

theorem length_le_length_renderMembers (ms : List Member) :
    ms.length ≤ (renderMembers ms).length := by
  induction ms with
  | nil => simp
  | cons m ms ih =>
    by_cases more : ms = []
    · subst more
      simp [renderMembers, renderMember]
    · rw [renderMembers_cons m more]
      simp only [List.length_cons, List.length_append]
      omega

/-- **Rendered members parse back to themselves.** -/
theorem parse_render {ms : List Member} (some : ms ≠ [])
    (clean : ∀ m ∈ ms, ∀ c ∈ m.1, unescaped c) : parse (render ms) = .some ms := by
  have enough : ms.length ≤ (renderMembers ms ++ ['}']).length := by
    have := length_le_length_renderMembers ms
    simp only [List.length_append]
    omega
  show parse ('{' :: (renderMembers ms ++ ['}'])) = .some ms
  simp only [parse, readMembers_renderMembers some clean enough]

/-- The number that a text shows under a key: that of the first member with the key. -/
def numberUnder (text key : List Char) : Option Int := (parse text).bind fun ms => ms.lookup key

theorem lookup_of_mem {ms : List Member} (distinct : (ms.map Prod.fst).Nodup) {m : Member}
    (member : m ∈ ms) : ms.lookup m.1 = some m.2 := by
  induction ms with
  | nil => cases member
  | cons first rest ih =>
    rw [List.map_cons, List.nodup_cons] at distinct
    rcases List.mem_cons.mp member with rfl | later
    · simp [List.lookup]
    · have other : m.1 ≠ first.1 := by
        intro same
        exact distinct.1 (same ▸ List.mem_map_of_mem later)
      rw [List.lookup_cons, beq_false_of_ne other]
      exact ih distinct.2 later

/-- **Each number stands under its key**, where the keys differ. -/
theorem numberUnder_render {ms : List Member} (clean : ∀ m ∈ ms, ∀ c ∈ m.1, unescaped c)
    (distinct : (ms.map Prod.fst).Nodup) {m : Member} (member : m ∈ ms) :
    numberUnder (render ms) m.1 = some m.2 := by
  rw [numberUnder, parse_render (List.ne_nil_of_mem member) clean]
  exact lookup_of_mem distinct member

/-! ### The characters of an object -/

/-- How long members with commas between them can be. -/
theorem length_renderMembers_le (ms : List Member) :
    (renderMembers ms).length ≤ (ms.map fun m => m.1.length + 4 + (signed m.2).length).sum := by
  induction ms with
  | nil => simp [renderMembers]
  | cons m ms ih =>
    by_cases more : ms = []
    · subst more
      simp only [renderMembers, renderMember, List.length_append, List.length_cons, List.map_cons,
        List.map_nil, List.sum_cons, List.sum_nil]
      omega
    · rw [renderMembers_cons m more]
      simp only [renderMember, List.length_append, List.length_cons, List.map_cons, List.sum_cons]
      omega

/-- A character of an object is punctuation, a digit, a sign, or belongs to a key. -/
theorem mem_render {ms : List Member} {c : Char} (member : c ∈ render ms) :
    c ∈ ['{', '}', ',', '"', ':', '-'] ∨ c.isDigit ∨ ∃ m ∈ ms, c ∈ m.1 := by
  have ofSigned : ∀ z : Int, c ∈ signed z → c ∈ ['{', '}', ',', '"', ':', '-'] ∨ c.isDigit := by
    intro z inside
    unfold signed at inside
    split at inside
    · rcases List.mem_cons.mp inside with rfl | digits
      · exact .inl (by decide)
      · exact .inr (isDigit_of_mem_natural digits)
    · exact .inr (isDigit_of_mem_natural inside)
  have ofMember : ∀ m ∈ ms, c ∈ renderMember m →
      c ∈ ['{', '}', ',', '"', ':', '-'] ∨ c.isDigit ∨ ∃ m ∈ ms, c ∈ m.1 := by
    intro m here inside
    simp only [renderMember, List.cons_append, List.mem_cons, List.mem_append] at inside
    rcases inside with rfl | inKey | rfl | rfl | inValue
    · exact .inl (by decide)
    · exact .inr (.inr ⟨m, here, inKey⟩)
    · exact .inl (by decide)
    · exact .inl (by decide)
    · rcases ofSigned m.2 inValue with mark | digit
      · exact .inl mark
      · exact .inr (.inl digit)
  have ofMembers : c ∈ renderMembers ms → c = ',' ∨ ∃ m ∈ ms, c ∈ renderMember m := by
    intro inside
    cases ms with
    | nil => cases inside
    | cons m ms =>
      rw [renderMembers_eq_flatten] at inside
      simp only [List.flatten_cons, List.mem_append, List.mem_flatten, List.mem_map] at inside
      rcases inside with first | ⟨_, ⟨m', later, rfl⟩, inPiece⟩
      · exact .inr ⟨m, List.mem_cons_self, first⟩
      · rcases List.mem_cons.mp inPiece with comma | text
        · exact .inl comma
        · exact .inr ⟨m', List.mem_cons_of_mem _ later, text⟩
  simp only [render, List.cons_append, List.mem_cons, List.mem_append, List.not_mem_nil,
    or_false] at member
  rcases member with rfl | inside | rfl
  · exact .inl (by decide)
  · rcases ofMembers inside with rfl | ⟨m, here, text⟩
    · exact .inl (by decide)
    · exact ofMember m here text
  · exact .inl (by decide)

/-- An object with keys that need no escape is one line. -/
theorem newline_not_mem_render {ms : List Member} (clean : ∀ m ∈ ms, ∀ c ∈ m.1, unescaped c) :
    '\n' ∉ render ms := by
  intro member
  rcases mem_render member with mark | digit | ⟨m, here, inKey⟩
  · exact absurd mark (by decide)
  · exact absurd digit (by decide)
  · exact absurd (clean m here _ inKey) (by decide)

end FlatJson
