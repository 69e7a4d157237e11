import FlatRecord.Header.TypeExpr
import FlatRecord.Proofs.FieldReading
import Mathlib.Data.List.Basic

/-!
# Fields as they are written

A field can be written on a line again (`Field.print`): its name, its type token and
possibly `mut`, with one space between them. What is written so reads as the field it
came from, `Field.read_print`, whatever the name: no character of an identifier is
blank, a quote or a colon, so the words of the line are the words that were written.

Type tokens are written and read on their own, `TypeToken.read_print`: what is written is
the text of a form (`TypeToken.Printable.form`), its length in plain decimal digits.
-/

namespace FlatRecord

/-! ## Characters -/

namespace Text

/-- The ASCII characters that may stand in an identifier. -/
def asciiTable : List CodeRange :=
  [⟨0x30, 0x39⟩, ⟨0x41, 0x5A⟩, ⟨0x5F, 0x5F⟩, ⟨0x61, 0x7A⟩]

/-- All characters that may stand in an identifier. -/
def identifierTable : List CodeRange := asciiTable ++ extendedTable ++ combiningTable

theorem inRanges_asciiTable_of_isAlpha {c : Char} (h : c.isAlpha = true) :
    inRanges asciiTable c = true := by
  rcases Bool.or_eq_true_iff.1 h with hupper | hlower
  · exact inRanges_iff.2 ⟨⟨0x41, 0x5A⟩, by simp [asciiTable], of_decide_eq_true hupper⟩
  · obtain ⟨hfirst, hlast⟩ := Bool.and_eq_true_iff.1 hlower
    exact inRanges_iff.2 ⟨⟨0x61, 0x7A⟩, by simp [asciiTable], of_decide_eq_true hfirst,
      of_decide_eq_true hlast⟩

theorem inRanges_asciiTable_of_isDigit {c : Char} (h : c.isDigit = true) :
    inRanges asciiTable c = true := by
  obtain ⟨hfirst, hlast⟩ := Bool.and_eq_true_iff.1 h
  exact inRanges_iff.2 ⟨⟨0x30, 0x39⟩, by simp [asciiTable], of_decide_eq_true hfirst,
    of_decide_eq_true hlast⟩

/-- Every character of an identifier is in the table of all of them. -/
theorem inRanges_identifierTable {c : Char} (h : isIdentifierPart c = true) :
    inRanges identifierTable c = true := by
  simp only [isIdentifierPart, isIdentifierStart, Bool.or_eq_true, beq_iff_eq] at h
  rw [inRanges, identifierTable, List.any_append, List.any_append, Bool.or_eq_true,
    Bool.or_eq_true]
  rcases h with (((halpha | rfl) | hextended) | hdigit) | hcombining
  · exact .inl (.inl (inRanges_asciiTable_of_isAlpha halpha))
  · exact .inl (.inl (by decide))
  · exact .inl (.inr hextended)
  · exact .inl (.inl (inRanges_asciiTable_of_isDigit hdigit))
  · exact .inr hcombining

/-- Whether a character may stand in a word of a field line: it is neither blank nor
a colon. -/
def isWordChar (c : Char) : Bool := !isBlank c && c != ':'

theorem isWordChar_iff {c : Char} : isWordChar c = true ↔ isBlank c = false ∧ c ≠ ':' := by
  simp [isWordChar]

/-- **A character of an identifier is not blank**, nor is it a colon. -/
theorem isWordChar_of_isIdentifierPart {c : Char} (h : isIdentifierPart c = true) :
    isWordChar c = true := by
  have hdisjoint : ∀ r ∈ identifierTable, ∀ b ∈ blankTable,
      r.last < b.first ∨ b.last < r.first := by
    decide
  refine isWordChar_iff.2 ⟨?_, ?_⟩
  · obtain ⟨r, hr, hfirst, hlast⟩ := inRanges_iff.1 (inRanges_identifierTable h)
    refine Bool.eq_false_iff.2 fun hblank => ?_
    obtain ⟨b, hb, hfirst', hlast'⟩ := inRanges_iff.1 hblank
    have hapart := hdisjoint r hr b hb
    omega
  · rintro rfl
    exact absurd h (by decide)

theorem isBlank_of_isIdentifierPart {c : Char} (h : isIdentifierPart c = true) :
    isBlank c = false :=
  (isWordChar_iff.1 (isWordChar_of_isIdentifierPart h)).1

theorem isWordChar_of_mem_identifier {cs : List Char} (h : isIdentifier cs = true) :
    ∀ c ∈ cs, isWordChar c = true := fun _ hc =>
  isWordChar_of_isIdentifierPart (isIdentifierPart_of_mem h hc)

end Text

/-! ## Type tokens -/

namespace TypeToken

/-- A type token as it is written. -/
def print (t : TypeToken) : String :=
  let inner := match t.length with
    | some n => t.name ++ "[" ++ n.repr ++ "]"
    | none => t.name
  if t.isOptional then "optional<" ++ inner ++ ">" else inner

/-- **A type token that can be written**: it has a name that is one, and a length is a
size other than zero. -/
structure Printable (t : TypeToken) : Prop where
  /-- Its name is not empty. -/
  name_ne_nil : t.name.toList ≠ []
  /-- The characters of its name may stand in one. -/
  name : ∀ c ∈ t.name.toList, isNameChar c = true
  /-- Its length is a size other than zero. -/
  length : ∀ n, t.length = some n → 0 < n ∧ n < Size.limit

/-- What is written behind the name of a token. -/
def brackets (length : Option Nat) : List Char :=
  match length with
  | some n => '[' :: (Nat.toDigits 10 n ++ [']'])
  | none => []

theorem toList_print (t : TypeToken) :
    t.print.toList
      = if t.isOptional then optionalOpener ++ (t.name.toList ++ (brackets t.length ++ ['>']))
        else t.name.toList ++ brackets t.length := by
  obtain ⟨isOptional, name, length⟩ := t
  cases length <;> cases isOptional <;>
    simp [print, brackets, optionalOpener, String.toList_append, Nat.toList_repr]

theorem valueOf_repr (n : Nat) : valueOf n.repr = n := by
  rw [valueOf, Nat.toList_repr, Nat.ofDigitChars_ten_toDigits]

theorem isDigits_repr (n : Nat) : IsDigits n.repr := by
  rw [← String.ofList_toList (s := n.repr), Nat.toList_repr]
  exact isDigits_ofList Nat.toDigits_ne_nil fun c hc =>
    Nat.isDigit_of_mem_toDigits (by decide) (by decide) hc

/-- The form that a token is written in. -/
def Printable.form {t : TypeToken} (h : t.Printable) : Form where
  isOptional := t.isOptional
  name := t.name
  digits := t.length.map Nat.repr
  isName := by
    rw [← String.ofList_toList (s := t.name)]
    exact isName_ofList h.name_ne_nil h.name
  isLength := by
    intro d hd
    obtain ⟨n, hn, rfl⟩ := Option.map_eq_some_iff.1 hd
    have hsize := h.length n hn
    unfold Size.limit at hsize
    exact ⟨isDigits_repr n, by rw [valueOf_repr]; omega⟩

theorem Printable.text_form {t : TypeToken} (h : t.Printable) : h.form.text = t.print := by
  obtain ⟨isOptional, name, length⟩ := t
  cases length <;> cases isOptional <;>
    simp [Form.text, Form.inner, Printable.form, print, opener, closer, String.append_assoc]

theorem Printable.token_form {t : TypeToken} (h : t.Printable) : h.form.token = t := by
  obtain ⟨isOptional, name, length⟩ := t
  cases length with
  | none => rfl
  | some n =>
    show TypeToken.mk isOptional name (some (valueOf n.repr)) = _
    rw [valueOf_repr]

/-- **A type token that is written reads as itself.** -/
theorem read_print {t : TypeToken} (h : t.Printable) : read t.print = .ok t :=
  read_eq_ok_iff_form.2 ⟨h.form, h.text_form, h.token_form⟩

theorem isIdentifierPart_of_isNameChar {c : Char} (h : isNameChar c = true) :
    Text.isIdentifierPart c = true := by
  simp only [isNameChar, Char.isAlphanum, Bool.or_eq_true] at h
  simp only [Text.isIdentifierPart, Text.isIdentifierStart, Bool.or_eq_true]
  rcases h with (h | h) | h
  · exact .inl (.inl (.inl (.inl h)))
  · exact .inl (.inr h)
  · exact .inl (.inl (.inl (.inr h)))

theorem isWordChar_of_mem_brackets {length : Option Nat} :
    ∀ c ∈ brackets length, Text.isWordChar c = true := by
  intro c hc
  cases length with
  | none => exact absurd hc List.not_mem_nil
  | some n =>
    simp only [brackets, List.mem_cons, List.mem_append, List.not_mem_nil, or_false] at hc
    rcases hc with rfl | hc | rfl
    · decide
    · have hdigit : c.isDigit = true := Nat.isDigit_of_mem_toDigits (by decide) (by decide) hc
      refine Text.isWordChar_of_isIdentifierPart ?_
      simp only [Text.isIdentifierPart, hdigit, Bool.or_true, Bool.true_or]
    · decide

/-- A token is one word. -/
theorem isWordChar_of_mem_print {t : TypeToken} (h : t.Printable) :
    ∀ c ∈ t.print.toList, Text.isWordChar c = true := by
  have hname : ∀ c ∈ t.name.toList, Text.isWordChar c = true := fun c hc =>
    Text.isWordChar_of_isIdentifierPart (isIdentifierPart_of_isNameChar (h.name c hc))
  have hopener : ∀ c ∈ optionalOpener, Text.isWordChar c = true :=
    List.all_eq_true.1 (by decide)
  have hcloser : ∀ c ∈ ['>'], Text.isWordChar c = true := List.all_eq_true.1 (by decide)
  rw [toList_print]
  split
  · simp only [List.forall_mem_append]
    exact ⟨hopener, hname, isWordChar_of_mem_brackets, hcloser⟩
  · simp only [List.forall_mem_append]
    exact ⟨hname, isWordChar_of_mem_brackets⟩

theorem print_ne_nil {t : TypeToken} (h : t.Printable) : t.print.toList ≠ [] := by
  rw [toList_print]
  split
  · exact List.cons_ne_nil _ _
  · exact List.append_ne_nil_of_left_ne_nil h.name_ne_nil _

end TypeToken

/-! ## Field lines -/

namespace ScalarType

/-- A type of the catalog is the one of its name. -/
theorem find?_name {t : ScalarType} (h : t ∈ catalog) : find? t.name = some t := by
  revert t
  decide

theorem name_of_mem_catalog {t : ScalarType} (h : t ∈ catalog) :
    t.name.toList ≠ [] ∧ t.name.toList.all TypeToken.isNameChar = true := by
  revert t
  decide

end ScalarType

namespace Field

/-- The type token that a field is declared by. -/
def typeToken (f : Field) : TypeToken := ⟨f.shape.isOptional, f.type.name, f.shape.length?⟩

/-- A field as it is written on its line. -/
def print (f : Field) : String :=
  f.name ++ " " ++ f.typeToken.print ++ (if f.mutable then " mut" else "")

theorem printable_typeToken {f : Field} (h : f.WellFormed) : f.typeToken.Printable := by
  obtain ⟨hne, hname⟩ := ScalarType.name_of_mem_catalog h.type
  exact ⟨hne, List.all_eq_true.1 hname, h.length⟩

/-- The token of a field has its shape over its type. -/
theorem shapeOver_typeToken {f : Field} (h : f.shape.Suits f.type.storage) :
    f.typeToken.shapeOver f.type = .ok f.shape := by
  obtain ⟨name, line, docs, shape, type, mutable⟩ := f
  cases shape with
  | scalar | array _ | optional _ | string _ | cString _ =>
    unfold TypeToken.shapeOver
    rw [show type.storage = _ from h]
    rfl

theorem toList_print (f : Field) :
    f.print.toList = f.name.toList ++ ' ' :: (f.typeToken.print.toList
      ++ if f.mutable then [' ', 'm', 'u', 't'] else []) := by
  unfold print
  cases f.mutable <;> simp [String.toList_append]

/-- The words of a field line are those that were written. -/
theorem words_print {f : Field} (h : f.WellFormed) :
    Text.words f.print.toList = f.name.toList :: f.typeToken.print.toList
      :: if f.mutable then [['m', 'u', 't']] else [] := by
  have hword : ∀ {w : List Char}, w ≠ [] → (∀ c ∈ w, Text.isWordChar c = true) →
      Text.words w = [w] := fun hne hw =>
    Text.words_eq_singleton hne fun c hc => (Text.isWordChar_iff.1 (hw c hc)).1
  have hname : Text.words f.name.toList = [f.name.toList] :=
    hword (Text.isIdentifier_ne_nil h.name) (Text.isWordChar_of_mem_identifier h.name)
  have htoken : Text.words f.typeToken.print.toList = [f.typeToken.print.toList] :=
    hword (TypeToken.print_ne_nil (printable_typeToken h))
      (TypeToken.isWordChar_of_mem_print (printable_typeToken h))
  rw [toList_print, Text.words_append_cons (by decide), hname]
  cases f.mutable with
  | false =>
    rw [if_neg Bool.false_ne_true, if_neg Bool.false_ne_true, List.append_nil, htoken]
    rfl
  | true =>
    rw [if_pos rfl, if_pos rfl, Text.words_append_cons (by decide), htoken]
    rfl

/-- A field line is made of words and spaces. -/
theorem isWordChar_or_space_of_mem_print {f : Field} (h : f.WellFormed) :
    ∀ c ∈ f.print.toList, Text.isWordChar c = true ∨ c = ' ' := by
  have hname := Text.isWordChar_of_mem_identifier h.name
  have htoken := TypeToken.isWordChar_of_mem_print (printable_typeToken h)
  have hmut : ∀ c ∈ ['m', 'u', 't'], Text.isWordChar c = true := List.all_eq_true.1 (by decide)
  rw [toList_print]
  simp only [List.forall_mem_append, List.forall_mem_cons, or_true, true_and]
  refine ⟨fun c hc => .inl (hname c hc), fun c hc => .inl (htoken c hc), ?_⟩
  cases f.mutable with
  | false => exact fun c hc => absurd hc List.not_mem_nil
  | true => exact List.forall_mem_cons.2 ⟨.inr rfl, fun c hc => .inl (hmut c hc)⟩

/-- A field line has no colon, and no line feed. -/
theorem ne_of_mem_print {f : Field} (h : f.WellFormed) :
    ∀ c ∈ f.print.toList, c ≠ ':' ∧ c ≠ '\n' := by
  intro c hc
  rcases isWordChar_or_space_of_mem_print h c hc with hword | rfl
  · obtain ⟨hblank, hcolon⟩ := Text.isWordChar_iff.1 hword
    refine ⟨hcolon, ?_⟩
    rintro rfl
    exact absurd hblank (by decide)
  · decide

/-- A field line begins with a character of an identifier. -/
theorem head?_print {f : Field} (h : f.WellFormed) :
    ∃ c, f.print.toList.head? = some c ∧ Text.isIdentifierPart c = true := by
  obtain ⟨c, cs, hc⟩ := List.exists_cons_of_ne_nil (Text.isIdentifier_ne_nil h.name)
  refine ⟨c, ?_, Text.isIdentifierPart_of_mem h.name (hc ▸ List.mem_cons_self)⟩
  rw [toList_print, hc]
  rfl

/-- A field line ends with a word. -/
theorem exists_word_print {f : Field} (h : f.WellFormed) :
    ∃ before word, f.print.toList = before ++ word ∧ word ≠ []
      ∧ ∀ c ∈ word, Text.isWordChar c = true := by
  rw [toList_print]
  cases f.mutable with
  | false =>
    refine ⟨f.name.toList ++ [' '], f.typeToken.print.toList, ?_,
      TypeToken.print_ne_nil (printable_typeToken h),
      TypeToken.isWordChar_of_mem_print (printable_typeToken h)⟩
    simp
  | true =>
    refine ⟨f.name.toList ++ ' ' :: (f.typeToken.print.toList ++ [' ']), ['m', 'u', 't'], ?_,
      List.cons_ne_nil _ _, List.all_eq_true.1 (by decide)⟩
    simp

/-- The last character of a field line is not blank. -/
theorem isBlank_getLast?_print {f : Field} (h : f.WellFormed) :
    ∀ c, f.print.toList.getLast? = some c → Text.isBlank c = false := by
  intro c hc
  obtain ⟨before, word, hsplit, hne, hword⟩ := exists_word_print h
  rw [hsplit, List.getLast?_append_of_ne_nil before hne] at hc
  exact (Text.isWordChar_iff.1 (hword c (List.mem_of_getLast? hc))).1

/-- A field line has no blank at its ends. -/
theorem trim_print {f : Field} (h : f.WellFormed) :
    Text.trim f.print.toList = f.print.toList := by
  refine Text.trim_eq_self (fun c hc => ?_) (isBlank_getLast?_print h)
  obtain ⟨d, hd, hpart⟩ := head?_print h
  obtain rfl := Option.some.inj (hd.symm.trans hc)
  exact Text.isBlank_of_isIdentifierPart hpart

/-- **A field that is written on a line reads as itself**, at the line where it stands
and without its comments. -/
theorem read_print {f : Field} (h : f.WellFormed) (n : Nat) :
    Field.read f.print n = .ok { f with line := n, docs := [] } := by
  refine read_eq_ok_iff.2 ⟨⟨f.name, f.typeToken.print, f.mutable⟩, f.typeToken, ?_,
    TypeToken.read_print (printable_typeToken h), ScalarType.find?_name h.type,
    shapeOver_typeToken h.shape, h.name, rfl, rfl, rfl, rfl⟩
  unfold FieldWords.split
  rw [words_print h]
  cases f.mutable <;> simp

example : Field.print ⟨"x", 7, ["a comment"], .optional (some 3), .ofPlain "u8" "uint8_t" 1, true⟩
    = "x optional<u8[3]> mut" := by
  decide

end Field

end FlatRecord
