/-
**The JSON grammar.**

`Text` is the whole grammar of RFC 8259: white space around every structural character, strings with
their escapes, numbers with fraction and exponent, the literals, arrays and objects, nested to any
depth.

* `text_of_object`: the objects of `FlatJson` are texts of it.
* `Derives.endsOther`: no rule derives a text that ends in a comma, whatever white space follows.
* `not_text_of_comma`: hence no JSON text ends in a comma and a closing brace.
-/

import Xstats.Lib.FlatJson

namespace Json

open Decimal FlatJson

/-! ### The terminals -/

/-- The white space of the grammar. -/
def white (c : Char) : Bool := c == ' ' || c == '\t' || c == '\n' || c == '\r'

/-- `ws` -/
def White (text : List Char) : Prop := ∀ c ∈ text, white c

theorem white_nil : White [] := fun _ member => by cases member

/-- A structural character with the white space around it. -/
inductive Mark (c : Char) : List Char → Prop
  | mk {before after : List Char} : White before → White after → Mark c (before ++ c :: after)

/-- `1*DIGIT` -/
def Digits (text : List Char) : Prop := text ≠ [] ∧ ∀ c ∈ text, c.isDigit

/-- `[ frac ]` -/
inductive Frac : List Char → Prop
  | none : Frac []
  | point {digits : List Char} : Digits digits → Frac ('.' :: digits)

/-- `[ exp ]` -/
inductive Exp : List Char → Prop
  | none : Exp []
  | exp {e : Char} {sign digits : List Char} : e ∈ ['e', 'E'] → sign ∈ [[], ['-'], ['+']] →
      Digits digits → Exp (e :: sign ++ digits)

/-- `[ minus ] int [ frac ] [ exp ]` -/
inductive Number : List Char → Prop
  | mk {int frac exp : List Char} {z : Int} : Signed int z → Frac frac → Exp exp →
      Number (int ++ frac ++ exp)

/-- A hexadecimal digit. -/
def hexDigit (c : Char) : Bool := c.isDigit || ('a' ≤ c && c ≤ 'f') || ('A' ≤ c && c ≤ 'F')

/-- `*char` -/
inductive Chars : List Char → Prop
  | nil : Chars []
  | plain {c : Char} {rest : List Char} : unescaped c → Chars rest → Chars (c :: rest)
  | escape {c : Char} {rest : List Char} : c ∈ ['"', '\\', '/', 'b', 'f', 'n', 'r', 't'] →
      Chars rest → Chars ('\\' :: c :: rest)
  | unicode {code rest : List Char} : code.length = 4 → (∀ c ∈ code, hexDigit c) → Chars rest →
      Chars ('\\' :: 'u' :: code ++ rest)

/-- A string between its quotation marks. -/
inductive Quoted : List Char → Prop
  | mk {chars : List Char} : Chars chars → Quoted ('"' :: chars ++ ['"'])

/-! ### The rules -/

/-- The rules of the grammar that refer to each other. -/
inductive Rule
  | value
  | values
  | member
  | members

/-- What a rule derives. -/
inductive Derives : Rule → List Char → Prop
  | false : Derives .value ['f', 'a', 'l', 's', 'e']
  | null : Derives .value ['n', 'u', 'l', 'l']
  | true : Derives .value ['t', 'r', 'u', 'e']
  | number {text : List Char} : Number text → Derives .value text
  | string {text : List Char} : Quoted text → Derives .value text
  | emptyArray {front back : List Char} : Mark '[' front → Mark ']' back →
      Derives .value (front ++ back)
  | array {front inner back : List Char} : Mark '[' front → Derives .values inner → Mark ']' back →
      Derives .value (front ++ inner ++ back)
  | emptyObject {front back : List Char} : Mark '{' front → Mark '}' back →
      Derives .value (front ++ back)
  | object {front inner back : List Char} : Mark '{' front → Derives .members inner → Mark '}' back →
      Derives .value (front ++ inner ++ back)
  | lastValue {text : List Char} : Derives .value text → Derives .values text
  | moreValues {text comma rest : List Char} : Derives .value text → Mark ',' comma →
      Derives .values rest → Derives .values (text ++ comma ++ rest)
  | member {key colon text : List Char} : Quoted key → Mark ':' colon → Derives .value text →
      Derives .member (key ++ colon ++ text)
  | lastMember {text : List Char} : Derives .member text → Derives .members text
  | moreMembers {text comma rest : List Char} : Derives .member text → Mark ',' comma →
      Derives .members rest → Derives .members (text ++ comma ++ rest)

/-- `JSON-text = ws value ws` -/
inductive Text : List Char → Prop
  | mk {before text after : List Char} : White before → Derives .value text → White after →
      Text (before ++ text ++ after)

/-! ### Flat objects -/

theorem mark_alone (c : Char) : Mark c [c] := .mk white_nil white_nil

theorem chars_of_unescaped {key : List Char} (clean : ∀ c ∈ key, unescaped c) : Chars key := by
  induction key with
  | nil => exact .nil
  | cons c rest ih =>
    have others : ∀ d ∈ rest, unescaped d := fun d member => clean d (List.mem_cons_of_mem _ member)
    exact .plain (clean c List.mem_cons_self) (ih others)

theorem number_of_signed {text : List Char} {z : Int} (signed : Signed text z) : Number text := by
  have plain := Number.mk signed .none .none
  simpa using plain

theorem derives_member {text : List Char} {m : Member} (member : MemberText text m) :
    Derives .member text := by
  obtain ⟨clean, signed⟩ := member
  rename_i key number z
  have shape : '"' :: key ++ '"' :: ':' :: number = ('"' :: key ++ ['"']) ++ [':'] ++ number := by simp
  rw [shape]
  exact .member (.mk (chars_of_unescaped clean)) (mark_alone ':') (.number (number_of_signed signed))

theorem derives_members {text : List Char} {ms : List Member} (members : MembersText text ms) :
    Derives .members text := by
  induction members with
  | one member => exact .lastMember (derives_member member)
  | more member _ ih =>
    have all := Derives.moreMembers (derives_member member) (mark_alone ',') ih
    simpa using all

/-- **The flat objects are JSON texts.** -/
theorem text_of_object {text : List Char} {ms : List Member} (object : Object text ms) : Text text := by
  obtain ⟨members⟩ := object
  rename_i body
  have value := Derives.object (mark_alone '{') (derives_members members) (mark_alone '}')
  have all := Text.mk white_nil value white_nil
  simpa using all

/-! ### How a text ends -/

/-- Where a text ends but for white space: the last character, and what stands before it. -/
structure EndsAt (front : List Char) (c : Char) (text : List Char) : Prop where
  solid : white c = .false
  split : ∃ after, text = front ++ c :: after ∧ White after

/-- The last character but for white space. -/
def EndsIn (c : Char) (text : List Char) : Prop := ∃ front, EndsAt front c text

/-- The last character but for white space is of a kind. -/
def Ends (kind : Char → Prop) (text : List Char) : Prop := ∃ c, kind c ∧ EndsIn c text

theorem endsAt_concat {front after : List Char} {c : Char} (solid : white c = .false)
    (gap : White after) : EndsAt front c (front ++ c :: after) := ⟨solid, after, rfl, gap⟩

theorem EndsAt.append {front text : List Char} {c : Char} (ends : EndsAt front c text)
    (before : List Char) : EndsAt (before ++ front) c (before ++ text) := by
  obtain ⟨solid, after, rfl, gap⟩ := ends
  exact ⟨solid, after, (List.append_assoc ..).symm, gap⟩

theorem EndsAt.white {front text after : List Char} {c : Char} (ends : EndsAt front c text)
    (gap : White after) : EndsAt front c (text ++ after) := by
  obtain ⟨solid, inner, rfl, blank⟩ := ends
  refine ⟨solid, inner ++ after, List.append_assoc .., fun d member => ?_⟩
  rcases List.mem_append.mp member with early | late
  · exact blank d early
  · exact gap d late

theorem EndsIn.append {text : List Char} {c : Char} (ends : EndsIn c text) (before : List Char) :
    EndsIn c (before ++ text) := by
  obtain ⟨front, ends⟩ := ends
  exact ⟨before ++ front, ends.append before⟩

theorem Ends.append {kind : Char → Prop} {text : List Char} (ends : Ends kind text)
    (before : List Char) : Ends kind (before ++ text) := by
  obtain ⟨c, member, ends⟩ := ends
  exact ⟨c, member, ends.append before⟩

theorem Ends.white {kind : Char → Prop} {text gap : List Char} (ends : Ends kind text)
    (blank : White gap) : Ends kind (text ++ gap) := by
  obtain ⟨c, member, front, ends⟩ := ends
  exact ⟨c, member, front, ends.white blank⟩

/-- A text ends in one way. -/
theorem EndsAt.unique {front front' text : List Char} {c d : Char} (ends : EndsAt front c text)
    (ends' : EndsAt front' d text) : front = front' ∧ c = d := by
  obtain ⟨solid, after, rfl, gap⟩ := ends
  obtain ⟨solid', after', same, gap'⟩ := ends'
  rcases List.append_eq_append_iff.mp same with ⟨between, rfl, rest⟩ | ⟨between, rfl, rest⟩
  · cases between with
    | nil =>
      cases rest
      exact ⟨(List.append_nil _).symm, rfl⟩
    | cons e others =>
      injection rest with _ rest
      have inside : d ∈ after := rest ▸ List.mem_append_right _ List.mem_cons_self
      exact absurd (gap d inside) (by simp [solid'])
  · cases between with
    | nil =>
      cases rest
      exact ⟨List.append_nil _, rfl⟩
    | cons e others =>
      injection rest with _ rest
      have inside : c ∈ after' := rest ▸ List.mem_append_right _ List.mem_cons_self
      exact absurd (gap' c inside) (by simp [solid])

theorem EndsIn.unique {text : List Char} {c d : Char} (ends : EndsIn c text) (ends' : EndsIn d text) :
    c = d := by
  obtain ⟨_, ends⟩ := ends
  obtain ⟨_, ends'⟩ := ends'
  exact (ends.unique ends').2

/-! ### How the rules end -/

theorem not_white_of_isDigit {c : Char} (digit : c.isDigit) : white c = .false := by
  cases blank : white c with
  | false => rfl
  | true =>
    simp only [white, Bool.or_eq_true, beq_iff_eq] at blank
    rcases blank with ((rfl | rfl) | rfl) | rfl <;> exact absurd digit (by decide)

/-- Ends in a digit. -/
abbrev EndsInDigit : List Char → Prop := Ends fun c => c.isDigit = .true

theorem Digits.endsInDigit {text : List Char} (digits : Digits text) : EndsInDigit text := by
  obtain ⟨some, all⟩ := digits
  have last := all (text.getLast some) (List.getLast_mem some)
  exact ⟨text.getLast some, last, text.dropLast, not_white_of_isDigit last, [],
    (List.dropLast_append_getLast some).symm, white_nil⟩

theorem digits_of_natural {text : List Char} {n : Nat} (natural : Natural text n) : Digits text := by
  cases natural with
  | zero => exact ⟨List.cons_ne_nil _ _, fun c member => by cases List.mem_singleton.mp member; rfl⟩
  | digits first _ others =>
    refine ⟨List.cons_ne_nil _ _, fun c member => ?_⟩
    rcases List.mem_cons.mp member with rfl | later
    · exact first
    · exact others c later

/-- Numbers end in a digit. -/
theorem Number.endsInDigit {text : List Char} (number : Number text) : EndsInDigit text := by
  obtain ⟨int, frac, exp⟩ := number
  have whole : ∀ {int : List Char} {z : Int}, Signed int z → EndsInDigit int := by
    intro int z signed
    cases signed with
    | nonneg natural => exact (digits_of_natural natural).endsInDigit
    | neg natural => exact (digits_of_natural natural).endsInDigit.append ['-']
  cases exp with
  | exp _ _ digits => exact (digits.endsInDigit.append _).append _
  | none =>
    rw [List.append_nil]
    cases frac with
    | point digits => exact (digits.endsInDigit.append ['.']).append _
    | none =>
      rw [List.append_nil]
      exact whole int

theorem Mark.endsAt {c : Char} {text : List Char} (mark : Mark c text) (solid : white c = .false) :
    ∃ gap, White gap ∧ EndsAt gap c text := by
  obtain ⟨before, after⟩ := mark
  exact ⟨_, before, endsAt_concat solid after⟩

theorem Mark.endsIn {c : Char} {text : List Char} (mark : Mark c text) (solid : white c = .false) :
    EndsIn c text := by
  obtain ⟨gap, _, ends⟩ := mark.endsAt solid
  exact ⟨gap, ends⟩

theorem Quoted.endsIn {text : List Char} (quoted : Quoted text) : EndsIn '"' text := by
  obtain ⟨_⟩ := quoted
  exact ⟨_, endsAt_concat rfl white_nil⟩

/-- **How a value ends**: in a digit, a letter, a quotation mark or a bracket. -/
theorem Derives.value_endsIn {text : List Char} (value : Derives .value text) :
    EndsInDigit text ∨ ∃ c ∈ ['e', 'l', '"', ']', '}'], EndsIn c text := by
  cases value with
  | false => exact .inr ⟨'e', by simp, ['f', 'a', 'l', 's'], endsAt_concat rfl white_nil⟩
  | null => exact .inr ⟨'l', by simp, ['n', 'u', 'l'], endsAt_concat rfl white_nil⟩
  | true => exact .inr ⟨'e', by simp, ['t', 'r', 'u'], endsAt_concat rfl white_nil⟩
  | number number => exact .inl number.endsInDigit
  | string quoted => exact .inr ⟨'"', by simp, quoted.endsIn⟩
  | emptyArray _ back => exact .inr ⟨']', by simp, (back.endsIn rfl).append _⟩
  | array _ _ back => exact .inr ⟨']', by simp, (back.endsIn rfl).append _⟩
  | emptyObject _ back => exact .inr ⟨'}', by simp, (back.endsIn rfl).append _⟩
  | object _ _ back => exact .inr ⟨'}', by simp, (back.endsIn rfl).append _⟩

/-- Ends in something else than a comma. -/
abbrev EndsOther : List Char → Prop := Ends (· ≠ ',')

theorem not_endsOther_comma {front gap : List Char} (blank : White gap) :
    ¬ EndsOther (front ++ ',' :: gap) := by
  rintro ⟨c, other, ends⟩
  exact other (ends.unique ⟨front, endsAt_concat rfl blank⟩)

/-- **No rule derives a text that ends in a comma**: the rules for members and values end in a value. -/
theorem Derives.endsOther {rule : Rule} {text : List Char} (derives : Derives rule text) :
    EndsOther text := by
  have ofValue : ∀ {text : List Char}, Derives .value text → EndsOther text := by
    intro text value
    rcases value.value_endsIn with ⟨c, digit, ends⟩ | ⟨c, member, ends⟩
    · refine ⟨c, ?_, ends⟩
      rintro rfl
      exact absurd digit (by decide)
    · refine ⟨c, ?_, ends⟩
      rintro rfl
      simp at member
  induction derives with
  | false => exact ofValue .false
  | null => exact ofValue .null
  | true => exact ofValue .true
  | number number => exact ofValue (.number number)
  | string quoted => exact ofValue (.string quoted)
  | emptyArray opening closing => exact ofValue (.emptyArray opening closing)
  | array opening inner closing => exact ofValue (.array opening inner closing)
  | emptyObject opening closing => exact ofValue (.emptyObject opening closing)
  | object opening inner closing => exact ofValue (.object opening inner closing)
  | lastValue _ ih | lastMember _ ih => exact ih
  | moreValues _ _ _ _ ih | moreMembers _ _ _ _ ih | member _ _ _ ih => exact ih.append _

/-- A value that ends in a brace is an object, and what stands before the brace does not end in a
comma. -/
theorem Derives.before_brace {text front : List Char} (value : Derives .value text)
    (ends : EndsAt front '}' text) : EndsOther front := by
  have other : ∀ {c : Char}, c ≠ '}' → ¬ EndsIn c text :=
    fun differs last => differs (last.unique ⟨front, ends⟩)
  have split : ∀ {before back : List Char}, text = before ++ back → Mark '}' back → EndsOther before →
      EndsOther front := by
    rintro before back rfl mark inner
    obtain ⟨gap, blank, here⟩ := mark.endsAt rfl
    rw [(ends.unique (here.append before)).1]
    exact inner.white blank
  cases value with
  | emptyObject opening closing =>
    exact split rfl closing ⟨'{', by decide, opening.endsIn rfl⟩
  | object _ inner closing => exact split rfl closing (inner.endsOther.append _)
  | number number =>
    obtain ⟨c, digit, last⟩ := number.endsInDigit
    refine absurd last (other ?_)
    rintro rfl
    exact absurd digit (by decide)
  | false =>
    have last : EndsIn 'e' (['f', 'a', 'l', 's'] ++ ['e']) := ⟨_, endsAt_concat rfl white_nil⟩
    exact absurd last (other (by decide))
  | null =>
    have last : EndsIn 'l' (['n', 'u', 'l'] ++ ['l']) := ⟨_, endsAt_concat rfl white_nil⟩
    exact absurd last (other (by decide))
  | true =>
    have last : EndsIn 'e' (['t', 'r', 'u'] ++ ['e']) := ⟨_, endsAt_concat rfl white_nil⟩
    exact absurd last (other (by decide))
  | string quoted => exact absurd quoted.endsIn (other (by decide))
  | emptyArray _ closing => exact absurd ((closing.endsIn rfl).append _) (other (by decide))
  | array _ _ closing => exact absurd ((closing.endsIn rfl).append _) (other (by decide))

/-- **No JSON text has a comma before its last brace**, whatever white space stands around them. -/
theorem not_text_of_comma (front : List Char) {gap after : List Char} (blank : White gap)
    (behind : White after) : ¬ Text (front ++ ',' :: gap ++ '}' :: after) := by
  intro text
  have ends : EndsAt (front ++ ',' :: gap) '}' (front ++ ',' :: gap ++ '}' :: after) :=
    endsAt_concat rfl behind
  generalize front ++ ',' :: gap ++ '}' :: after = whole at text ends
  obtain ⟨_, value, trailing⟩ := text
  obtain ⟨c, _, last, here⟩ := value.endsOther
  obtain ⟨same, rfl⟩ := ends.unique ((here.append _).white trailing)
  exact not_endsOther_comma blank (same ▸ (value.before_brace here).append _)

end Json
