import FlatRecord.Schema
import FlatRecord.Text.Blank
import FlatRecord.Text.Identifier
import FlatRecord.TypeToken

/-!
# Field lines

A field is declared on one line of two or three words: its name, its type, and
possibly `mut`. Of the things that can be wrong with such a line the first of
these is reported: the words, the form of the type, the scalar type, its being
optional, the name.
-/

namespace FlatRecord

/-- The words of a field line. -/
structure FieldWords where
  /-- The name of the field. -/
  name : String
  /-- Its type, not yet read. -/
  type : String
  /-- Whether `mut` follows. -/
  mutable : Bool
deriving DecidableEq, Repr

/-- Splits a field line into its words. -/
def FieldWords.split (text : String) : Except Violation FieldWords :=
  match (Text.words text.toList).map String.ofList with
  | [name, type] => .ok ⟨name, type, false⟩
  | [name, type, third] =>
    if third = "mut" then .ok ⟨name, type, true⟩
    else .error (.malformed (.thirdWord third))
  | _ => .error (.malformed (.fieldWords text))

/-- The shape that a scalar type takes in a type token, unless the token makes
an optional of text. -/
def TypeToken.shapeOver (token : TypeToken) (type : ScalarType) : Except Violation Shape :=
  match type.storage, token.isOptional with
  | .plain, true => .ok (.optional token.length)
  | .plain, false => .ok ((token.length.map Shape.array).getD .scalar)
  | .cString, false => .ok (.cString token.length)
  | .string, false => .ok (.string token.length)
  | _, true => .error (.optionalText type.name)

/-- Reads a field off the text of its line. Its comments come later. -/
def Field.read (text : String) (line : Nat) : Except Violation Field := do
  let words ← FieldWords.split text
  let token ← TypeToken.read words.type
  let type ← (ScalarType.find? token.name).elim (.error (.unknownType token.name)) .ok
  let shape ← token.shapeOver type
  if Text.isIdentifier words.name.toList then
    return { name := words.name, line, docs := [], shape, type, mutable := words.mutable }
  else .error (.invalidIdentifier words.name)

end FlatRecord
