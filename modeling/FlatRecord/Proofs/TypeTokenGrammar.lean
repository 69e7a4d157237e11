import FlatRecord.Proofs.ByteCursor
import Mathlib.Data.Set.Subsingleton

/-!
# The grammar of type tokens

What a type token may look like is said here without a reader: a token has a
`TypeToken.Form`, its parts as they are written, and the form has a text. A name is a
run of ASCII letters, digits and underscores, a length is a run of ASCII digits whose
value is a size other than zero, and the whole may stand inside `optional<…>`.

Reading accepts the texts of forms and nothing else (`TypeToken.read_eq_ok_iff_form`),
a text has one form at most (`TypeToken.Form.text_injective`), and of the texts that are
rejected those are told apart whose length is what is wrong with them
(`TypeToken.BadlySized`): for these the digits are reported, whatever follows them.
What makes all of it deterministic is that no step can take more or less than its part:
a name cannot go on with the bracket behind it, and the one name that an opener begins
with, `optional`, is followed by `<` only there.
-/

namespace FlatRecord

theorem takeWhile_append_of_head? {p : Char → Bool} {name rest : List Char}
    (hname : ∀ c ∈ name, p c = true) (hrest : ∀ c, rest.head? = some c → p c = false) :
    (name ++ rest).takeWhile p = name ∧ (name ++ rest).dropWhile p = rest := by
  rw [List.takeWhile_append_of_pos hname, List.dropWhile_append_of_pos hname]
  cases rest with
  | nil => exact ⟨List.append_nil name, rfl⟩
  | cons c rest =>
    have hc : ¬ p c = true := by
      rw [hrest c rfl]
      exact Bool.false_ne_true
    rw [List.takeWhile_cons_of_neg hc, List.dropWhile_cons_of_neg hc]
    exact ⟨List.append_nil name, rfl⟩

namespace TypeToken

/-! ## Forms -/

/-- A name of a type: ASCII letters, digits and underscores, one at least. -/
def IsName (s : String) : Prop := s ≠ "" ∧ ∀ c ∈ s.toList, c.isAlphanum = true ∨ c = '_'

/-- A run of ASCII digits, one at least. -/
def IsDigits (s : String) : Prop := s ≠ "" ∧ ∀ c ∈ s.toList, c.isDigit = true

/-- The number that digits are written for. -/
def valueOf (digits : String) : Nat := Nat.ofDigitChars 10 digits.toList 0

/-- What stands before a type that is optional or not. -/
def opener (isOptional : Bool) : String := if isOptional then "optional<" else ""

/-- What stands behind a type that is optional or not. -/
def closer (isOptional : Bool) : String := if isOptional then ">" else ""

/-- **The form of a type token**: its parts as they are written. -/
structure Form where
  /-- Whether it is inside `optional<…>`. -/
  isOptional : Bool
  /-- The name of the type. -/
  name : String
  /-- The digits in brackets, if there are brackets. -/
  digits : Option String
  /-- The name is one. -/
  isName : IsName name
  /-- The digits are digits, and their value is a size other than zero. -/
  isLength : ∀ d ∈ digits, IsDigits d ∧ 1 ≤ valueOf d ∧ valueOf d ≤ 2 ^ 64 - 1

/-- The text of a form without the `optional<…>` around it. -/
def Form.inner (f : Form) : String :=
  match f.digits with
  | some digits => f.name ++ "[" ++ digits ++ "]"
  | none => f.name

/-- The text of a form. -/
def Form.text (f : Form) : String := opener f.isOptional ++ f.inner ++ closer f.isOptional

/-- What a form says. -/
def Form.token (f : Form) : TypeToken := ⟨f.isOptional, f.name, f.digits.map valueOf⟩

/-- **A token whose length is no size**: it begins like the text of a form, but the value
of these digits is zero or too large. What follows the bracket does not matter. -/
def BadlySized (text digits : String) : Prop :=
  ∃ isOptional name rest, IsName name ∧ IsDigits digits
    ∧ (valueOf digits = 0 ∨ 2 ^ 64 ≤ valueOf digits)
    ∧ text = opener isOptional ++ name ++ "[" ++ digits ++ "]" ++ rest

/-! ## Names and openers -/

theorem IsName.ne_nil {s : String} (h : IsName s) : s.toList ≠ [] := fun hnil =>
  h.1 (String.toList_eq_nil_iff.1 hnil)

theorem IsName.isNameChar {s : String} (h : IsName s) : ∀ c ∈ s.toList, isNameChar c = true :=
  fun c hc => by
    rw [TypeToken.isNameChar, Bool.or_eq_true, beq_iff_eq]
    exact h.2 c hc

theorem isName_ofList {cs : List Char} (hne : cs ≠ []) (h : ∀ c ∈ cs, isNameChar c = true) :
    IsName (String.ofList cs) := by
  refine ⟨fun hnil => hne (String.ofList_eq_empty_iff.1 hnil), fun c hc => ?_⟩
  rw [String.toList_ofList] at hc
  simpa [isNameChar] using h c hc

theorem isDigits_ofList {cs : List Char} (hne : cs ≠ []) (h : ∀ c ∈ cs, c.isDigit = true) :
    IsDigits (String.ofList cs) :=
  ⟨fun hnil => hne (String.ofList_eq_empty_iff.1 hnil),
    fun c hc => h c (by rwa [String.toList_ofList] at hc)⟩

/-- What the step takes off is what stands there. -/
theorem eq_append_of_takeOpener {cs rest : List Char} {isOptional : Bool}
    (h : takeOpener cs = (isOptional, rest)) : cs = (opener isOptional).toList ++ rest := by
  unfold takeOpener at h
  split at h
  · rename_i hprefix
    obtain ⟨rfl, rfl⟩ := Prod.mk.inj h
    exact (List.append_eq_of_isPrefixOf?_eq_some hprefix).symm
  · obtain ⟨rfl, rfl⟩ := Prod.mk.inj h
    rfl

/-- A name and what stands behind it, with or without an opener before them: the opener is
taken off if it is there, and nothing else is taken for one. -/
theorem takeOpener_append (isOptional : Bool) {name rest : List Char}
    (hname : ∀ c ∈ name, isNameChar c = true)
    (hrest : ∀ c, rest.head? = some c → isNameChar c = false) (hangle : rest.head? ≠ some '<') :
    takeOpener ((opener isOptional).toList ++ (name ++ rest)) = (isOptional, name ++ rest) := by
  cases isOptional with
  | true => simp [takeOpener, opener, optionalOpener, List.isPrefixOf?]
  | false =>
    show takeOpener (name ++ rest) = _
    unfold takeOpener
    split
    · rename_i left hprefix
      have happ : optionalOpener ++ left = name ++ rest :=
        List.append_eq_of_isPrefixOf?_eq_some hprefix
      -- the name would have to end where the `<` stands
      have hdrop : (optionalOpener ++ left).dropWhile isNameChar = '<' :: left := by
        simp [optionalOpener, isNameChar, Char.isAlphanum]
      rw [happ, (takeWhile_append_of_head? hname hrest).2] at hdrop
      exact absurd (congrArg List.head? hdrop) hangle
    · rfl

/-! ## Lengths -/

/-- What a form has in brackets behind its name. -/
def bracketed (digits : Option String) : List Char :=
  match digits with
  | some digits => '[' :: (digits.toList ++ [']'])
  | none => []

theorem bracketed_some_append (digits : String) (rest : List Char) :
    bracketed (some digits) ++ rest = '[' :: (digits.toList ++ ']' :: rest) := by
  rw [bracketed, List.cons_append, List.append_assoc, List.singleton_append]

theorem lengthOfDigits_eq (digits : String) :
    lengthOfDigits digits.toList
      = if 0 < valueOf digits ∧ valueOf digits < Size.limit then .ok (valueOf digits)
        else .error (.invalidLength digits) := by
  rw [lengthOfDigits, String.ofList_toList]
  rfl

/-- Digits in brackets are taken as what they are, whatever follows. -/
theorem takeLength_bracketed {token digits : String} (h : IsDigits digits) (rest : List Char) :
    takeLength token (bracketed (some digits) ++ rest)
      = lengthOfDigits digits.toList >>= fun n => pure (some n, rest) := by
  have hhead : ∀ c, (']' :: rest).head? = some c → c.isDigit = false := by
    rintro _ ⟨⟩
    decide
  obtain ⟨htake, hdrop⟩ := takeWhile_append_of_head? h.2 hhead
  obtain ⟨d, ds, hds⟩ := List.exists_cons_of_ne_nil fun hnil =>
    h.1 (String.toList_eq_nil_iff.1 hnil)
  rw [bracketed_some_append, takeLength, htake, hdrop, hds]
  rfl

/-- **What can stand behind a name**: no bracket, digits in brackets, or a bracket that
does not hold a length. -/
theorem takeLength_cases (token : String) (cs : List Char) :
    cs.head? ≠ some '[' ∨ (∃ digits rest, IsDigits digits ∧ cs = bracketed (some digits) ++ rest)
      ∨ takeLength token cs = .error (.malformed (.bracket token)) := by
  by_cases hopen : cs.head? = some '['
  · obtain ⟨cs, rfl⟩ := List.head?_eq_some_iff.1 hopen
    rcases closed_or_not_taken token cs with ⟨d, ds, rest, htake, hdrop⟩ | ⟨-, hbracket⟩
    · refine .inr (.inl ⟨String.ofList (d :: ds), rest,
        isDigits_ofList (List.cons_ne_nil _ _) ?_, ?_⟩)
      · exact htake ▸ List.all_eq_true.1 List.all_takeWhile
      · rw [bracketed_some_append, String.toList_ofList, ← htake, ← hdrop,
          List.takeWhile_append_dropWhile]
    · exact .inr (.inr hbracket)
  · exact .inl hopen

theorem takeCloser_closer (token : String) (isOptional : Bool) (rest : List Char) :
    takeCloser token isOptional ((closer isOptional).toList ++ rest) = .ok rest := by
  cases isOptional <;> rfl

/-- What the step takes off is what stands there. -/
theorem takeCloser_cases (token : String) (isOptional : Bool) (cs : List Char) :
    (∃ rest, cs = (closer isOptional).toList ++ rest)
      ∨ takeCloser token isOptional cs = .error (.malformed (.unclosedOptional token)) := by
  unfold takeCloser
  split
  · exact .inl ⟨cs, rfl⟩
  · rename_i rest
    exact .inl ⟨rest, rfl⟩
  · exact .inr rfl

/-! ## Reading -/

/-- A token that has a name is read by what stands behind it. -/
theorem read_of_name {text name : String} {isOptional : Bool} {rest : List Char}
    (hname : IsName name) (hrest : ∀ c, rest.head? = some c → isNameChar c = false)
    (hopen : takeOpener text.toList = (isOptional, name.toList ++ rest)) :
    read text = takeLength text rest >>= fun sized =>
      takeCloser text isOptional sized.2 >>= fun left =>
        if left.isEmpty then pure ⟨isOptional, name, sized.1⟩
        else .error (.malformed (.leftover (String.ofList left) text)) := by
  obtain ⟨htake, hdrop⟩ := takeWhile_append_of_head? hname.isNameChar hrest
  rw [read, hopen]
  dsimp only
  rw [htake, hdrop, if_neg fun hnil => hname.ne_nil (List.isEmpty_iff.1 hnil),
    String.ofList_toList]

/-- A token has a name, or this is what is reported. -/
theorem exists_name (text : String) :
    (∃ isOptional name rest, IsName name ∧ (∀ c, rest.head? = some c → isNameChar c = false)
        ∧ takeOpener text.toList = (isOptional, name.toList ++ rest))
      ∨ read text = .error (.malformed (.typeName text)) := by
  rcases hopen : takeOpener text.toList with ⟨isOptional, cs⟩
  by_cases hnil : (cs.takeWhile isNameChar).isEmpty
  · refine .inr ?_
    rw [read, hopen]
    exact if_pos hnil
  · refine .inl ⟨isOptional, String.ofList (cs.takeWhile isNameChar), cs.dropWhile isNameChar,
      isName_ofList (fun h => hnil (List.isEmpty_iff.2 h)) ?_, ?_, ?_⟩
    · exact List.all_eq_true.1 List.all_takeWhile
    · exact fun c hc => by simpa [hc] using List.head?_dropWhile_not isNameChar cs
    · rw [String.toList_ofList, List.takeWhile_append_dropWhile]

theorem Form.toList_text (f : Form) :
    f.text.toList = (opener f.isOptional).toList
      ++ (f.name.toList ++ (bracketed f.digits ++ (closer f.isOptional).toList)) := by
  cases hdigits : f.digits <;>
    simp [Form.text, Form.inner, bracketed, hdigits, String.toList_append]

/-- What stands behind the name of a form does not go on with it. -/
theorem head?_bracketed_append {digits : Option String} {isOptional : Bool} {c : Char}
    (h : (bracketed digits ++ (closer isOptional).toList).head? = some c) :
    c = '[' ∨ c = '>' := by
  cases digits with
  | some digits => exact .inl (Option.some.inj h).symm
  | none =>
    cases isOptional with
    | true => exact .inr (Option.some.inj h).symm
    | false => cases h

theorem Form.isNameChar_of_head? (f : Form) (c : Char)
    (h : (bracketed f.digits ++ (closer f.isOptional).toList).head? = some c) :
    isNameChar c = false := by
  rcases head?_bracketed_append h with rfl | rfl <;> decide

theorem Form.takeOpener_text (f : Form) :
    takeOpener f.text.toList
      = (f.isOptional, f.name.toList ++ (bracketed f.digits ++ (closer f.isOptional).toList)) := by
  rw [f.toList_text]
  refine takeOpener_append _ f.isName.isNameChar f.isNameChar_of_head? fun hangle => ?_
  exact absurd (head?_bracketed_append hangle) (by decide)

/-- **The text of a form reads as what the form says.** -/
theorem Form.read_text (f : Form) : read f.text = .ok f.token := by
  have hlength : takeLength f.text (bracketed f.digits ++ (closer f.isOptional).toList)
      = .ok (f.digits.map valueOf, (closer f.isOptional).toList) := by
    cases hdigits : f.digits with
    | none =>
      refine takeLength_of_head? fun hopen => ?_
      cases hopt : f.isOptional <;> rw [hopt] at hopen <;> cases hopen
    | some digits =>
      obtain ⟨hdigit, hpos, hlimit⟩ := f.isLength digits hdigits
      have hlt : valueOf digits < Size.limit := by
        unfold Size.limit
        omega
      rw [takeLength_bracketed hdigit, lengthOfDigits_eq, if_pos ⟨hpos, hlt⟩]
      rfl
  have hclose := takeCloser_closer f.text f.isOptional []
  rw [List.append_nil] at hclose
  rw [read_of_name f.isName f.isNameChar_of_head? f.takeOpener_text, hlength]
  show (takeCloser f.text f.isOptional _ >>= _) = _
  rw [hclose]
  rfl

theorem bracketed_injective : Function.Injective bracketed := by
  intro digits digits' h
  cases digits <;> cases digits'
  case none.none => rfl
  case none.some => cases h
  case some.none => cases h
  case some.some =>
    have hdigits := List.append_cancel_right (List.cons.inj h).2
    exact congrArg some (String.toList_inj.1 hdigits)

/-- **A text has one form at most.** -/
theorem Form.text_injective : Function.Injective Form.text := by
  intro f g htext
  have hopen : takeOpener f.text.toList = takeOpener g.text.toList := by rw [htext]
  rw [f.takeOpener_text, g.takeOpener_text] at hopen
  obtain ⟨hoptional, hbehind⟩ := Prod.mk.inj hopen
  obtain ⟨htake, hdrop⟩ := takeWhile_append_of_head? f.isName.isNameChar f.isNameChar_of_head?
  obtain ⟨htake', hdrop'⟩ := takeWhile_append_of_head? g.isName.isNameChar g.isNameChar_of_head?
  rw [hbehind] at htake hdrop
  have hname : f.name = g.name := String.toList_inj.1 (htake.symm.trans htake')
  have hdigits : f.digits = g.digits := by
    have hbehindName : bracketed f.digits ++ (closer g.isOptional).toList
        = bracketed g.digits ++ (closer g.isOptional).toList := by
      rw [← hoptional, ← hdrop, hdrop', hoptional]
    exact bracketed_injective (List.append_cancel_right hbehindName)
  obtain ⟨isOptional, name, digits, _, _⟩ := f
  obtain ⟨isOptional', name', digits', _, _⟩ := g
  obtain rfl : isOptional = isOptional' := hoptional
  obtain rfl : name = name' := hname
  obtain rfl : digits = digits' := hdigits
  rfl

/-- A length that is no size is reported before what follows it is looked at. -/
theorem read_of_badlySized {text digits : String} (h : BadlySized text digits) :
    read text = .error (.invalidLength digits) := by
  obtain ⟨isOptional, name, rest, hname, hdigits, hvalue, htext⟩ := h
  have hlist : text.toList
      = (opener isOptional).toList
        ++ (name.toList ++ (bracketed (some digits) ++ rest.toList)) := by
    rw [htext, bracketed]
    simp [String.toList_append]
  have hhead : ∀ c, (bracketed (some digits) ++ rest.toList).head? = some c →
      isNameChar c = false := by
    rintro _ ⟨⟩
    decide
  have hangle : (bracketed (some digits) ++ rest.toList).head? ≠ some '<' := by
    rintro ⟨⟩
  have hopen := takeOpener_append isOptional hname.isNameChar hhead hangle
  rw [← hlist] at hopen
  have hout : ¬ (0 < valueOf digits ∧ valueOf digits < Size.limit) := by
    unfold Size.limit
    omega
  rw [read_of_name hname hhead hopen, takeLength_bracketed hdigits, lengthOfDigits_eq,
    if_neg hout]
  rfl

/-- A token with a name and a length that is none or right is the text of a form, unless
what follows is not what closes it. -/
theorem form_or_malformed {text name : String} {isOptional : Bool} {cs : List Char}
    (digits : Option String) (hname : IsName name)
    (hdigits : ∀ d ∈ digits, IsDigits d ∧ 1 ≤ valueOf d ∧ valueOf d ≤ 2 ^ 64 - 1)
    (htext : text.toList
      = (opener isOptional).toList ++ (name.toList ++ (bracketed digits ++ cs)))
    (hread : read text = takeCloser text isOptional cs >>= fun left =>
      if left.isEmpty then pure ⟨isOptional, name, digits.map valueOf⟩
      else .error (.malformed (.leftover (String.ofList left) text))) :
    (∃ f : Form, f.text = text) ∨ ∃ fault, read text = .error (.malformed fault) := by
  rcases takeCloser_cases text isOptional cs with ⟨left, rfl⟩ | hclose
  · cases left with
    | nil =>
      refine .inl ⟨⟨isOptional, name, digits, hname, hdigits⟩, String.toList_inj.1 ?_⟩
      rw [Form.toList_text, htext, List.append_nil]
    | cons c left =>
      rw [takeCloser_closer] at hread
      exact .inr ⟨_, hread⟩
  · rw [hclose] at hread
    exact .inr ⟨_, hread⟩

/-- **What a token is**: the text of a form, or one whose length is no size, or malformed. -/
theorem read_cases (text : String) :
    (∃ f : Form, f.text = text) ∨ (∃ digits, BadlySized text digits)
      ∨ ∃ fault, read text = .error (.malformed fault) := by
  rcases exists_name text with ⟨isOptional, name, rest, hname, hrest, hopen⟩ | hnone
  · have htext := eq_append_of_takeOpener hopen
    have hread := read_of_name hname hrest hopen
    rcases takeLength_cases text rest with hhead | ⟨digits, cs, hdigits, rfl⟩ | hbracket
    · rw [takeLength_of_head? hhead] at hread
      exact (form_or_malformed none hname nofun htext hread).imp_right .inr
    · rw [takeLength_bracketed hdigits, lengthOfDigits_eq] at hread
      by_cases hvalue : 0 < valueOf digits ∧ valueOf digits < Size.limit
      · rw [if_pos hvalue] at hread
        refine (form_or_malformed (some digits) hname ?_ htext hread).imp_right .inr
        rintro _ ⟨⟩
        unfold Size.limit at hvalue
        exact ⟨hdigits, by omega⟩
      · refine .inr (.inl ⟨digits, isOptional, name, String.ofList cs, hname, hdigits, ?_, ?_⟩)
        · unfold Size.limit at hvalue
          omega
        · refine String.toList_inj.1 (htext.trans ?_)
          simp [String.toList_append, bracketed]
    · rw [hbracket] at hread
      exact .inr (.inr ⟨_, hread⟩)
  · exact .inr (.inr ⟨_, hnone⟩)

/-- **Reading accepts the texts of forms and nothing else.** -/
theorem read_eq_ok_iff_form {text : String} {token : TypeToken} :
    read text = .ok token ↔ ∃ f : Form, f.text = text ∧ f.token = token := by
  constructor
  · intro h
    rcases read_cases text with ⟨f, rfl⟩ | ⟨digits, hbad⟩ | ⟨fault, hfault⟩
    · exact ⟨f, rfl, Except.ok.inj (f.read_text.symm.trans h)⟩
    · cases (read_of_badlySized hbad).symm.trans h
    · cases hfault.symm.trans h
  · rintro ⟨f, rfl, rfl⟩
    exact f.read_text

/-- The digits are reported just when they are what is wrong. -/
theorem read_eq_invalidLength_iff {text digits : String} :
    read text = .error (.invalidLength digits) ↔ BadlySized text digits := by
  refine ⟨fun h => ?_, read_of_badlySized⟩
  rcases read_cases text with ⟨f, rfl⟩ | ⟨digits', hbad⟩ | ⟨fault, hfault⟩
  · cases f.read_text.symm.trans h
  · obtain rfl := Violation.invalidLength.inj
      (Except.error.inj ((read_of_badlySized hbad).symm.trans h))
    exact hbad
  · cases hfault.symm.trans h

/-- Every other text is malformed. -/
theorem read_eq_malformed_iff {text : String} :
    (∃ fault, read text = .error (.malformed fault)) ↔
      (¬ ∃ f : Form, f.text = text) ∧ ¬ ∃ digits, BadlySized text digits := by
  constructor
  · rintro ⟨fault, h⟩
    refine ⟨?_, ?_⟩
    · rintro ⟨f, rfl⟩
      cases f.read_text.symm.trans h
    · rintro ⟨digits, hbad⟩
      cases (read_of_badlySized hbad).symm.trans h
  · rintro ⟨hform, hsize⟩
    rcases read_cases text with hf | hd | hm
    · exact absurd hf hform
    · exact absurd hd hsize
    · exact hm

/-- **Reading a type token decides its grammar.** A text reads as a token if and only if
it is the text of a form that says so, and it has one form at most; the length is
reported if and only if the text begins like a form and the value of its digits is zero
or too large for a size; every other text is malformed. Read by a cursor in bytes it
comes to the same, and no cut falls inside a character. -/
theorem read_decides_grammar (text : String) :
    (∀ token, read text = .ok token ↔ ∃ f : Form, f.text = text ∧ f.token = token)
    ∧ {f : Form | f.text = text}.Subsingleton
    ∧ (∀ digits, read text = .error (.invalidLength digits) ↔ BadlySized text digits)
    ∧ ((∃ fault, read text = .error (.malformed fault)) ↔
        (¬ ∃ f : Form, f.text = text) ∧ ¬ ∃ digits, BadlySized text digits)
    ∧ readByCursor text = some (read text) :=
  ⟨fun _ => read_eq_ok_iff_form, fun _ hf _ hg => Form.text_injective (hf.trans hg.symm),
    fun _ => read_eq_invalidLength_iff, read_eq_malformed_iff, readByCursor_eq text⟩

example : read "optional<u8[007]>" = .ok ⟨true, "u8", some 7⟩ := by
  decide

example : read "optional[0]é" = .error (.invalidLength "0") := by
  decide

end TypeToken

end FlatRecord
