import FlatRecord.Text.Blank
import FlatRecord.Text.Lines

/-!
# Schema lines

A schema is read line by line, and what a line is can be told from the line
alone. Trimmed of blanks, it is nothing; or text between two double quotes, a
comment; or text that ends in a colon, the header of a record; or any other
text. Besides that a line only says whether it is indented, and its number.
-/

namespace FlatRecord

/-- What a line holds. -/
inductive LineContent where
  /-- Nothing but blanks. -/
  | blank
  /-- A comment: the text between its quotes. -/
  | comment (text : String)
  /-- The header of a record: the text before its last colon. -/
  | header (name : String)
  /-- Anything else, trimmed. -/
  | text (text : String)
deriving DecidableEq, Repr

/-- A line of a schema. -/
structure Line where
  /-- The number of the line, counted from 1. -/
  number : Nat
  /-- Whether it begins with a blank. -/
  indented : Bool
  /-- What it holds. -/
  content : LineContent
deriving DecidableEq, Repr

/-- The text between the quotes, when a text begins and ends with one and the
two are not the same. -/
def unquoted? : List Char → Option (List Char)
  | '"' :: cs => if cs.getLast? = some '"' then some cs.dropLast else none
  | _ => none

/-- What a trimmed text holds. -/
def LineContent.ofTrimmed (cs : List Char) : LineContent :=
  if cs.isEmpty then .blank
  else match unquoted? cs with
    | some inner => .comment (String.ofList inner)
    | none =>
      if cs.getLast? = some ':' then .header (String.ofList cs.dropLast)
      else .text (String.ofList cs)

/-- Two quotes make a comment when they are at the ends and not the same. -/
theorem unquoted?_eq_none_iff {cs : List Char} :
    unquoted? cs = none ↔ (cs.head? = some '"' → cs.tail.getLast? ≠ some '"') := by
  unfold unquoted?
  split
  · split <;> simp [*]
  · rename_i hquote
    refine ⟨fun _ hhead => ?_, fun _ => rfl⟩
    obtain ⟨ds, rfl⟩ := List.head?_eq_some_iff.1 hhead
    exact absurd rfl (hquote ds)

theorem LineContent.ofTrimmed_eq_text_iff {cs : List Char} {text : String} :
    ofTrimmed cs = .text text ↔
      (cs ≠ [] ∧ unquoted? cs = none ∧ cs.getLast? ≠ some ':') ∧ String.ofList cs = text := by
  unfold ofTrimmed
  cases hempty : cs.isEmpty with
  | true => simp [List.isEmpty_iff.1 hempty]
  | false =>
    have hne : cs ≠ [] := List.isEmpty_eq_false_iff.1 hempty
    cases hunquoted : unquoted? cs with
    | some inner => simp
    | none =>
      by_cases hcolon : cs.getLast? = some ':'
      · simp [hcolon]
      · simp [hcolon, hne]

/-- The text that a line holds, if it holds one. -/
def LineContent.text? : LineContent → Option String
  | .blank => none
  | .comment held | .header held | .text held => some held

/-- What is between the quotes stands in the text. -/
theorem infix_of_unquoted? {cs inner : List Char} (h : unquoted? cs = some inner) :
    inner <:+: cs := by
  unfold unquoted? at h
  split at h
  · rename_i ds
    split at h
    · obtain rfl := Option.some.inj h
      exact (List.dropLast_prefix ds).isInfix.trans (List.suffix_cons _ ds).isInfix
    · cases h
  · cases h

/-- What a line holds stands in its trimmed text. -/
theorem LineContent.infix_of_text? {cs : List Char} {text : String}
    (h : (LineContent.ofTrimmed cs).text? = some text) : text.toList <:+: cs := by
  have hheld : ∀ ds : List Char, ds <:+: cs → (String.ofList ds).toList <:+: cs := fun ds hds => by
    rwa [String.toList_ofList]
  unfold ofTrimmed at h
  split at h
  · cases h
  split at h
  · rename_i inner hinner
    cases h
    exact hheld inner (infix_of_unquoted? hinner)
  split at h
  · cases h
    exact hheld _ (List.dropLast_prefix cs).isInfix
  · cases h
    exact hheld cs List.infix_rfl

namespace Line

/-- Whether a text begins with a blank. -/
def startsBlank (cs : List Char) : Bool := cs.head?.any Text.isBlank

/-- Reads a line off its text. -/
def classify (text : String) (number : Nat) : Line where
  number := number
  indented := startsBlank text.toList
  content := .ofTrimmed (Text.trim text.toList)

/-- What a line holds stands in its text. -/
theorem infix_of_text? {cs : List Char} {number : Nat} {text : String}
    (h : (classify (String.ofList cs) number).content.text? = some text) :
    text.toList <:+: cs := by
  have htrim := LineContent.infix_of_text? h
  rw [String.toList_ofList] at htrim
  exact htrim.trans (Text.infix_trim cs)

/-- Classifies texts as consecutive lines, the first with the given number. -/
def numberFrom (first : Nat) : List (List Char) → List Line
  | [] => []
  | cs :: rest => classify (String.ofList cs) first :: numberFrom (first + 1) rest

/-- The lines of a schema text, numbered from 1. -/
def ofText (text : String) : List Line := numberFrom 1 (Text.lines text.toList)

/-- Texts behind others are numbered on from where these end. -/
theorem numberFrom_append (first : Nat) (before after : List (List Char)) :
    numberFrom first (before ++ after)
      = numberFrom first before ++ numberFrom (first + before.length) after := by
  induction before generalizing first with
  | nil => rfl
  | cons cs before ih =>
    rw [List.cons_append, numberFrom, numberFrom, ih, List.length_cons, List.cons_append,
      Nat.add_assoc, Nat.add_comm 1]

theorem length_numberFrom (first : Nat) (texts : List (List Char)) :
    (numberFrom first texts).length = texts.length := by
  induction texts generalizing first with
  | nil => rfl
  | cons cs texts ih => rw [numberFrom, List.length_cons, ih, List.length_cons]

/-- The first of some lines are the lines of the first of their texts. -/
theorem take_numberFrom (first : Nat) (texts : List (List Char)) (n : Nat) :
    (numberFrom first texts).take n = numberFrom first (texts.take n) := by
  induction texts generalizing first n with
  | nil => simp [numberFrom]
  | cons cs texts ih =>
    cases n with
    | zero => rfl
    | succ n => rw [numberFrom, List.take_succ_cons, ih, List.take_succ_cons, numberFrom]

/-- Lines are numbered by where they stand. -/
theorem getElem?_numberFrom (first : Nat) (texts : List (List Char)) (i : Nat) :
    (numberFrom first texts)[i]?
      = texts[i]?.map fun cs => classify (String.ofList cs) (first + i) := by
  induction texts generalizing first i with
  | nil => rfl
  | cons cs texts ih =>
    cases i with
    | zero => rfl
    | succ i =>
      rw [numberFrom, List.getElem?_cons_succ, ih, List.getElem?_cons_succ, Nat.add_assoc,
        Nat.add_comm 1]

end Line

end FlatRecord
