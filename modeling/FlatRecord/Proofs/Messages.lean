import FlatRecord.Compile
import FlatRecord.Proofs.JsonReading
import FlatRecord.Proofs.SourceReading

/-!
# Messages tell errors apart

The message of an error is put together from wording that is always the same, from texts
that a schema brings along, and from the number of a line. The texts can be anything that a
user writes, other messages included. Still a message is one line that says what was found
and nothing else: no two errors have the same one (`SchemaError.message_injective`), and no control
character gets into it (`SchemaError.le_toNat_of_mem_message`).

A text stands in a message as it is quoted, and so it ends where its own closing quote is
(`Text.quoteChars_append_inj`); a number ends where no digit follows
(`Text.repr_append_inj`). So two messages can be read side by side, part by part, for as
long as they have parts of the same kind (`Message.inStep`). That they have is a matter of the
wording alone, with all texts left out: whatever two rules are broken, their messages go in
step up to two different letters, and if there is none it is one rule.
-/

namespace FlatRecord

/-! ## Texts and numbers within others -/

namespace Text

/-- Where a quoted text is what another one begins with, it is all of it. -/
theorem eq_nil_of_quoteChars_append {s t z : List Char} (h : quoteChars t = quoteChars s ++ z) :
    s = t ∧ z = [] := by
  have hread := Json.Lexer.reads_quoteChars t
  rw [h] at hread
  obtain ⟨first, lexer, more, hfirst, hmore, htokens⟩ := hread.exists_of_append
  -- the text that ends in front is the only one there is
  obtain ⟨rfl, rfl⟩ : [Json.Token.text (String.ofList s)] = first ∧ .between = lexer :=
    Prod.mk.inj (Option.some.inj ((Json.Lexer.reads_quoteChars s).symm.trans hfirst))
  obtain rfl : t = s := String.ofList_injective (Json.Token.text.inj (List.cons.inj htokens).1)
  exact ⟨rfl, List.self_eq_append_right.1 h⟩

/-- **A quoted text tells where it ends**, whatever comes behind it. -/
theorem quoteChars_append_inj {s t x y : List Char}
    (h : quoteChars s ++ x = quoteChars t ++ y) : s = t ∧ x = y := by
  rcases List.append_eq_append_iff.1 h with ⟨z, hz, rfl⟩ | ⟨z, hz, rfl⟩
  · obtain ⟨rfl, rfl⟩ := eq_nil_of_quoteChars_append hz
    exact ⟨rfl, rfl⟩
  · obtain ⟨rfl, rfl⟩ := eq_nil_of_quoteChars_append hz
    exact ⟨rfl, rfl⟩

/-- **A number tells where it ends** when no digit comes behind it. -/
theorem repr_append_inj {n m : Nat} {x y : List Char}
    (hx : ∀ c, x.head? = some c → c.isDigit = false)
    (hy : ∀ c, y.head? = some c → c.isDigit = false)
    (h : n.repr.toList ++ x = m.repr.toList ++ y) : n = m ∧ x = y := by
  have hread := takeNumber?_repr n x hx
  rw [h, takeNumber?_repr m y hy] at hread
  obtain ⟨rfl, rfl⟩ := Prod.mk.inj (Option.some.inj hread)
  exact ⟨rfl, rfl⟩

/-- Nothing in a quoted text is a control character, whatever is quoted. -/
theorem le_toNat_of_mem_quoteChars {s : List Char} {c : Char} (h : c ∈ quoteChars s) :
    0x20 ≤ c.toNat := by
  have hescape : ∀ d, ∀ c ∈ escape d, 0x20 ≤ c.toNat := by
    intro d
    unfold escape
    iterate 7
      split
      · exact List.forall_mem_cons.2 ⟨by decide, List.forall_mem_singleton.2 (by decide)⟩
    split
    · rename_i hcontrol
      have hdigit : ∀ n < 16, 0x20 ≤ (Nat.digitChar n).toNat := by decide
      have hhigh := hdigit (d.toNat / 16) (by omega)
      have hlow := hdigit (d.toNat % 16) (by omega)
      simp only [hexEscape, List.forall_mem_cons]
      exact ⟨by decide, by decide, by decide, by decide, hhigh, hlow, nofun⟩
    · rename_i hcontrol
      exact List.forall_mem_singleton.2 (Nat.le_of_not_lt hcontrol)
  unfold quoteChars at h
  rcases List.mem_append.1 h with h | h
  · rcases List.mem_cons.1 h with rfl | h
    · decide
    · obtain ⟨d, -, hc⟩ := List.mem_flatMap.1 h
      exact hescape d c hc
  · obtain rfl := List.mem_singleton.1 h
    decide

end Text

/-! ## Messages in parts -/

namespace Message

/-- **A part of a message.** -/
inductive Part where
  /-- A letter of the wording. -/
  | letter (c : Char)
  /-- A text in quotes. -/
  | quoted (text : String)
  /-- A number. -/
  | number (n : Nat)
deriving DecidableEq

/-- The characters of a part. -/
def Part.chars : Part → List Char
  | .letter c => [c]
  | .quoted text => Text.quoteChars text.toList
  | .number n => n.repr.toList

/-- A part with nothing filled in. -/
def Part.bare : Part → Part
  | .letter c => .letter c
  | .quoted _ => .quoted ""
  | .number _ => .number 0

/-- Whether a part brings no control character along. Texts and numbers never do. -/
def Part.printable : Part → Bool
  | .letter c => 0x20 ≤ c.toNat
  | .quoted _ | .number _ => true

/-- The text of a part, if it is one in quotes. -/
def Part.text? : Part → Option String
  | .quoted text => some text
  | .letter _ | .number _ => none

/-- The number of a part, if it is one. -/
def Part.number? : Part → Option Nat
  | .number n => some n
  | .letter _ | .quoted _ => none

/-- The letters of some wording. -/
def wording (text : String) : List Part := text.toList.map .letter

/-- The characters of some parts. -/
def spelled (parts : List Part) : List Char := parts.flatMap Part.chars

/-- Whether a number ends before these parts. -/
def endsNumber : List Part → Bool
  | [] => true
  | .letter c :: _ => !c.isDigit
  | _ => false

/-- **Whether two messages go in step**: they have parts of the same kind up to where both end
or their letters differ, and numbers in them end where they do. -/
def inStep : List Part → List Part → Bool
  | [], [] => true
  | .letter c :: p, .letter d :: q => c != d || inStep p q
  | .quoted _ :: p, .quoted _ :: q => inStep p q
  | .number _ :: p, .number _ :: q => endsNumber p && endsNumber q && inStep p q
  | _, _ => false

theorem Part.printable_bare (part : Part) : part.bare.printable = part.printable := by
  cases part <;> rfl

theorem Part.le_toNat_of_printable {part : Part} {c : Char} (h : part.printable = true)
    (hc : c ∈ part.chars) : 0x20 ≤ c.toNat := by
  cases part with
  | letter d =>
    obtain rfl := List.mem_singleton.1 hc
    exact of_decide_eq_true h
  | quoted text => exact Text.le_toNat_of_mem_quoteChars hc
  | number n =>
    rw [Part.chars, Nat.toList_repr] at hc
    have hdigit : c.isDigit = true := Nat.isDigit_of_mem_toDigits (by decide) (by decide) hc
    have hzero : 0x30 ≤ c.toNat := (Char.isDigit_iff_toNat.1 hdigit).1
    exact Nat.le_trans (by decide) hzero

theorem isDigit_of_endsNumber {parts : List Part} (h : endsNumber (parts.map Part.bare) = true) :
    ∀ c, (spelled parts).head? = some c → c.isDigit = false := by
  rcases parts with _ | ⟨c | text | n, parts⟩
  · exact nofun
  · exact forall_head?_cons (Bool.not_eq_true' _ ▸ h) _
  · cases h
  · cases h

/-- **Messages whose wordings go in step tell what is filled in**: spelled the same, they are the
same, part by part. -/
theorem eq_of_inStep {p q : List Part} (h : inStep (p.map Part.bare) (q.map Part.bare) = true)
    (hsame : spelled p = spelled q) : p = q := by
  induction p generalizing q with
  | nil =>
    cases q with
    | nil => rfl
    | cons b q => cases h
  | cons a p ih =>
    rcases q with _ | ⟨b, q⟩
    · cases a <;> cases h
    cases a with
    | letter c =>
      cases b with
      | letter d =>
        obtain ⟨rfl, hrest⟩ : c = d ∧ spelled p = spelled q := List.cons.inj hsame
        have hstep : (c != c || inStep (p.map Part.bare) (q.map Part.bare)) = true := h
        rw [bne_self_eq_false, Bool.false_or] at hstep
        rw [ih hstep hrest]
      | quoted | number => cases h
    | quoted s =>
      cases b with
      | quoted t =>
        obtain ⟨htext, hrest⟩ := Text.quoteChars_append_inj hsame
        rw [String.toList_inj.1 htext, ih h hrest]
      | letter | number => cases h
    | number n =>
      cases b with
      | number m =>
        obtain ⟨hends, hstep⟩ := Bool.and_eq_true_iff.1 h
        obtain ⟨hp, hq⟩ := Bool.and_eq_true_iff.1 hends
        obtain ⟨rfl, hrest⟩ := Text.repr_append_inj (isDigit_of_endsNumber hp)
          (isDigit_of_endsNumber hq) hsame
        rw [ih hstep hrest]
      | letter | quoted => cases h

@[simp] theorem spelled_nil : spelled [] = [] := rfl

@[simp] theorem spelled_cons (part : Part) (parts : List Part) :
    spelled (part :: parts) = part.chars ++ spelled parts := rfl

@[simp] theorem spelled_append (p q : List Part) : spelled (p ++ q) = spelled p ++ spelled q :=
  List.flatMap_append

@[simp] theorem spelled_wording (text : String) : spelled (wording text) = text.toList := by
  rw [spelled, wording, List.flatMap_map]
  exact List.flatMap_singleton' text.toList

@[simp] theorem map_bare_wording (text : String) :
    (wording text).map Part.bare = wording text := by
  rw [wording, List.map_map]
  rfl

@[simp] theorem filterMap_text?_wording (text : String) :
    (wording text).filterMap Part.text? = [] := by
  rw [wording, List.filterMap_map]
  exact List.filterMap_eq_nil_iff.2 fun _ _ => rfl

@[simp] theorem filterMap_number?_wording (text : String) :
    (wording text).filterMap Part.number? = [] := by
  rw [wording, List.filterMap_map]
  exact List.filterMap_eq_nil_iff.2 fun _ _ => rfl

end Message

/-! ## The parts of each message -/

namespace SchemaError

open Message

/-- The parts of what is said of a syntax fault. -/
def faultParts : SyntaxFault → List Part
  | .fieldWords text => wording "Expected \"name type [mut]\" but found " ++ [.quoted text]
  | .thirdWord word => wording "Expected \"mut\" but found " ++ [.quoted word]
  | .typeName token => wording "Expected type name in " ++ [.quoted token]
  | .bracket token => wording "Expected \"[length]\" in " ++ [.quoted token]
  | .unclosedOptional token => wording "Expected \">\" to close " ++ [.quoted token]
  | .leftover rest token =>
    wording "Unexpected " ++ .quoted rest :: (wording " in type " ++ [.quoted token])
  | .strayText text =>
    wording "Expected a comment or a record header but found " ++ [.quoted text]
  | .nestedRecord inner outer =>
    wording "Record " ++ .quoted inner :: (wording " cannot be nested in " ++ [.quoted outer])

/-- The parts of the message of an error. -/
def parts (e : SchemaError) : List Part :=
  let line := Part.number e.line
  match e.violation with
  | .unexpectedIndent => wording "Unexpected whitespace at line " ++ [line]
  | .missingIndent => wording "Expected whitespace at line " ++ [line]
  | .invalidIdentifier name =>
    wording "Invalid identifier " ++ .quoted name :: (wording " at line " ++ [line])
  | .malformed fault =>
    wording "Syntax error at line " ++ line :: (wording ": " ++ faultParts fault)
  | .emptyRecord record =>
    wording "Record " ++ .quoted record
      :: (wording " at line " ++ line :: wording " has no fields")
  | .orphanedComment => wording "Orphaned comments at line " ++ [line]
  | .unknownType type => wording "Unknown type " ++ .quoted type :: (wording " at line " ++ [line])
  | .optionalText type =>
    wording "Type " ++ .quoted type :: (wording " cannot be optional at line " ++ [line])
  | .invalidLength digits =>
    wording "Array length " ++ .quoted digits
      :: (wording " must be a positive integer at line " ++ [line])
  | .duplicateRecord record =>
    wording "The record " ++ .quoted record :: (wording " is defined twice at line " ++ [line])
  | .duplicateField record field =>
    wording "The field " ++ .quoted field :: (wording " is defined twice in record "
      ++ .quoted record :: (wording " at line " ++ [line]))
  | .reservedName name =>
    wording "The name " ++ .quoted name :: (wording " is reserved at line " ++ [line])
  | .recordTooLarge record =>
    wording "Record " ++ .quoted record
      :: (wording " at line " ++ line :: wording " is too large to lay out")

theorem spelled_faultParts (fault : SyntaxFault) :
    spelled (faultParts fault) = fault.message.toList := by
  unfold SyntaxFault.message faultParts
  cases fault <;>
    simp only [spelled_append, spelled_wording, spelled_cons, spelled_nil, Part.chars, Text.quote,
      String.toList_append, String.toList_ofList, List.append_assoc, List.append_nil]

/-- **The message of an error is its parts, spelled.** -/
theorem spelled_parts (e : SchemaError) : spelled e.parts = e.message.toList := by
  obtain ⟨n, v⟩ := e
  cases v <;>
    simp only [parts, message, spelled_append, spelled_wording, spelled_cons, spelled_nil,
      spelled_faultParts, Part.chars, Text.quote, String.toList_append, String.toList_ofList,
      List.append_assoc, List.append_nil]

/-! ## Rules -/

/-- The same rule, broken at another line and by other texts. -/
def refill (n : Nat) (texts : List String) (e : SchemaError) : SchemaError :=
  let first := texts.getD 0 ""
  let second := texts.getD 1 ""
  { line := n
    violation := match e.violation with
      | .unexpectedIndent => .unexpectedIndent
      | .missingIndent => .missingIndent
      | .invalidIdentifier _ => .invalidIdentifier first
      | .malformed (.fieldWords _) => .malformed (.fieldWords first)
      | .malformed (.thirdWord _) => .malformed (.thirdWord first)
      | .malformed (.typeName _) => .malformed (.typeName first)
      | .malformed (.bracket _) => .malformed (.bracket first)
      | .malformed (.unclosedOptional _) => .malformed (.unclosedOptional first)
      | .malformed (.leftover _ _) => .malformed (.leftover first second)
      | .malformed (.strayText _) => .malformed (.strayText first)
      | .malformed (.nestedRecord _ _) => .malformed (.nestedRecord first second)
      | .emptyRecord _ => .emptyRecord first
      | .orphanedComment => .orphanedComment
      | .unknownType _ => .unknownType first
      | .optionalText _ => .optionalText first
      | .invalidLength _ => .invalidLength first
      | .duplicateRecord _ => .duplicateRecord first
      | .duplicateField _ _ => .duplicateField second first
      | .reservedName _ => .reservedName first
      | .recordTooLarge _ => .recordTooLarge first }

/-- The rule of an error, with nothing filled in. -/
def bare (e : SchemaError) : SchemaError := e.refill 0 []

/-- Every rule, with nothing filled in. -/
def rules : List SchemaError :=
  [.unexpectedIndent, .missingIndent, .invalidIdentifier "", .malformed (.fieldWords ""),
    .malformed (.thirdWord ""), .malformed (.typeName ""), .malformed (.bracket ""),
    .malformed (.unclosedOptional ""), .malformed (.leftover "" ""), .malformed (.strayText ""),
    .malformed (.nestedRecord "" ""), .emptyRecord "", .orphanedComment, .unknownType "",
    .optionalText "", .invalidLength "", .duplicateRecord "", .duplicateField "" "",
    .reservedName "", .recordTooLarge ""].map (SchemaError.mk 0)

theorem bare_mem_rules (e : SchemaError) : e.bare ∈ rules := by
  obtain ⟨n, v⟩ := e
  rcases v with _ | _ | _ | fault | _ | _ | _ | _ | _ | _ | _ | _ | _
  case malformed => cases fault <;> simp [bare, refill, rules]
  all_goals simp [bare, refill, rules]

theorem map_bare_parts (e : SchemaError) : e.parts.map Part.bare = e.bare.parts := by
  obtain ⟨n, v⟩ := e
  rcases v with _ | _ | _ | fault | _ | _ | _ | _ | _ | _ | _ | _ | _
  case malformed => cases fault <;> simp [bare, refill, parts, faultParts, Part.bare]
  all_goals simp [bare, refill, parts, Part.bare]

/-- An error is its rule with the texts and the line filled in that its message has. -/
theorem refill_bare (e : SchemaError) :
    e.bare.refill (e.parts.filterMap Part.number?).sum (e.parts.filterMap Part.text?) = e := by
  obtain ⟨n, v⟩ := e
  rcases v with _ | _ | _ | fault | _ | _ | _ | _ | _ | _ | _ | _ | _
  case malformed =>
    cases fault <;>
      simp [bare, refill, parts, faultParts, Part.text?, Part.number?, List.filterMap_append,
        List.filterMap_cons]
  all_goals
    simp [bare, refill, parts, Part.text?, Part.number?, List.filterMap_append,
      List.filterMap_cons]

/-- **Whatever two rules are broken, their messages go in step**, and no two rules have one
wording. -/
theorem inStep_rules : ∀ e ∈ rules, ∀ e' ∈ rules,
    inStep e.parts e'.parts = true ∧ (e.parts = e'.parts → e = e') := by
  decide +kernel

/-- No wording has a control character in it. -/
theorem printable_rules : ∀ e ∈ rules, ∀ part ∈ e.parts, part.printable = true := by
  decide +kernel

/-! ## Messages -/

/-- **A message is one line**: no control character gets into it. -/
theorem le_toNat_of_mem_message {e : SchemaError} {c : Char} (h : c ∈ e.message.toList) :
    0x20 ≤ c.toNat := by
  rw [← spelled_parts] at h
  obtain ⟨part, hpart, hc⟩ := List.mem_flatMap.1 h
  have hbare : part.bare ∈ e.bare.parts := map_bare_parts e ▸ List.mem_map_of_mem hpart
  refine Part.le_toNat_of_printable ?_ hc
  rw [← Part.printable_bare]
  exact printable_rules _ (bare_mem_rules e) _ hbare

/-- **A message tells its error**: the rule, the line and the texts. -/
theorem message_injective : Function.Injective message := by
  intro e e' h
  obtain ⟨hstep, hrule⟩ := inStep_rules _ (bare_mem_rules e) _ (bare_mem_rules e')
  have hparts : e.parts = e'.parts := by
    rw [← map_bare_parts, ← map_bare_parts] at hstep
    refine eq_of_inStep hstep ?_
    rw [spelled_parts, spelled_parts, h]
  have hbare : e.bare = e'.bare := by
    apply hrule
    rw [← map_bare_parts, ← map_bare_parts, hparts]
  rw [← refill_bare e, ← refill_bare e', hparts, hbare]

end SchemaError

/-- **What is reported of a schema cannot be forged.** Whatever a text holds, the message of
the error it has is one line without control characters; and two errors of compiling, of
whatever texts and under whatever options, that have one message are one error: the same rule
broken by the same texts at the same line. -/
theorem compile_error_message_unambiguous :
    (∀ (text : String) (options : Options) (e : SchemaError), compile text options = .error e →
      ∀ c ∈ e.message.toList, 0x20 ≤ c.toNat)
    ∧ ∀ (text text' : String) (options options' : Options) (e e' : SchemaError),
      compile text options = .error e → compile text' options' = .error e' →
      e.message = e'.message → e = e' :=
  ⟨fun _ _ _ _ _ => SchemaError.le_toNat_of_mem_message,
    fun _ _ _ _ _ _ _ _ h => SchemaError.message_injective h⟩

/-- A text that is written like the message of another error, with a control character in it. -/
def forgingText : String := "Syntax error at line 9: Expected type name in \"\u0007\""

/-- The error that is found in it. -/
def forgingError : SchemaError := ⟨1, .malformed (.strayText forgingText)⟩

/-- What a user wrote stays within quotes. When the text goes on and the options are others, the
same is reported, of the same error. -/
theorem forgingText_message :
    compile forgingText {} = .error forgingError
      ∧ forgingError.message
        = "Syntax error at line 1: Expected a comment or a record header but found "
          ++ "\"Syntax error at line 9: Expected type name in \\\"\\u0007\\\"\""
      ∧ (∀ c ∈ forgingError.message.toList, 0x20 ≤ c.toNat)
      ∧ forgingError = ⟨1, .malformed (.strayText
        "Syntax error at line 9: Expected type name in \"\u0007\"")⟩ := by
  have h : compile forgingText {} = .error forgingError := by
    decide +kernel
  have hmore : compile (forgingText ++ "\n\nA:") { allMutable := true } = .error ⟨1,
      .malformed (.strayText "Syntax error at line 9: Expected type name in \"\u0007\"")⟩ := by
    decide +kernel
  exact ⟨h, by decide +kernel, compile_error_message_unambiguous.1 _ _ _ h,
    compile_error_message_unambiguous.2 _ _ _ _ _ _ h hmore (by decide +kernel)⟩

end FlatRecord
