import FlatRecord.Text.Quoted

/-!
# Violations

What can be wrong with a schema. A `Violation` is the rule that was broken,
with the text that broke it; a `SchemaError` adds the line. The wording stands
in one place, `SchemaError.message`, and every piece of the user's text enters
it quoted, so that a message is one line of printable text whatever the schema
holds.
-/

namespace FlatRecord

open Text (quote)

/-- What a line or a word of it was expected to be and is not. -/
inductive SyntaxFault where
  /-- The line is not `name type` with an optional third word. -/
  | fieldWords (text : String)
  /-- The third word of a field line is not `mut`. -/
  | thirdWord (word : String)
  /-- A type token does not begin with a type name. -/
  | typeName (token : String)
  /-- The bracket of a type token does not hold a length. -/
  | bracket (token : String)
  /-- The `optional<` of a type token is not closed. -/
  | unclosedOptional (token : String)
  /-- A type token goes on after its end. -/
  | leftover (rest token : String)
  /-- A line outside a record is neither comment nor header. -/
  | strayText (text : String)
  /-- A header stands inside a record. -/
  | nestedRecord (inner outer : String)
deriving DecidableEq, Repr

/-- What was expected or found, in words. -/
def SyntaxFault.message : SyntaxFault → String
  | .fieldWords text => "Expected \"name type [mut]\" but found " ++ quote text
  | .thirdWord word => "Expected \"mut\" but found " ++ quote word
  | .typeName token => "Expected type name in " ++ quote token
  | .bracket token => "Expected \"[length]\" in " ++ quote token
  | .unclosedOptional token => "Expected \">\" to close " ++ quote token
  | .leftover rest token => "Unexpected " ++ quote rest ++ " in type " ++ quote token
  | .strayText text => "Expected a comment or a record header but found " ++ quote text
  | .nestedRecord inner outer =>
    "Record " ++ quote inner ++ " cannot be nested in " ++ quote outer

/-- A rule of the schema language that was broken. -/
inductive Violation where
  /-- A line outside a record is indented. -/
  | unexpectedIndent
  /-- A line inside a record is not indented. -/
  | missingIndent
  /-- A declared name is no identifier. -/
  | invalidIdentifier (name : String)
  /-- A line does not have the form of any declaration. -/
  | malformed (fault : SyntaxFault)
  /-- A record ended without a field. -/
  | emptyRecord (record : String)
  /-- Comments stand before nothing they could document. -/
  | orphanedComment
  /-- No scalar type has this name. -/
  | unknownType (type : String)
  /-- A text type cannot be optional. -/
  | optionalText (type : String)
  /-- A length is zero, or too large to be a size. -/
  | invalidLength (digits : String)
  /-- Two records have one name. -/
  | duplicateRecord (record : String)
  /-- Two fields of a record have one name. -/
  | duplicateField (record field : String)
  /-- A name is taken by the language, the base class or a generated member. -/
  | reservedName (name : String)
  /-- The fields of a record do not fit in the largest size. -/
  | recordTooLarge (record : String)
deriving DecidableEq, Repr

/-- A violation at a line of the schema. -/
structure SchemaError where
  /-- The line it is reported at, counted from 1. -/
  line : Nat
  /-- The rule that was broken. -/
  violation : Violation
deriving DecidableEq, Repr

/-- The report of an error, in words. -/
def SchemaError.message (e : SchemaError) : String :=
  let line := e.line.repr
  match e.violation with
  | .unexpectedIndent => "Unexpected whitespace at line " ++ line
  | .missingIndent => "Expected whitespace at line " ++ line
  | .invalidIdentifier name => "Invalid identifier " ++ quote name ++ " at line " ++ line
  | .malformed fault => "Syntax error at line " ++ line ++ ": " ++ fault.message
  | .emptyRecord record => "Record " ++ quote record ++ " at line " ++ line ++ " has no fields"
  | .orphanedComment => "Orphaned comments at line " ++ line
  | .unknownType type => "Unknown type " ++ quote type ++ " at line " ++ line
  | .optionalText type => "Type " ++ quote type ++ " cannot be optional at line " ++ line
  | .invalidLength digits =>
    "Array length " ++ quote digits ++ " must be a positive integer at line " ++ line
  | .duplicateRecord record =>
    "The record " ++ quote record ++ " is defined twice at line " ++ line
  | .duplicateField record field =>
    "The field " ++ quote field ++ " is defined twice in record " ++ quote record
      ++ " at line " ++ line
  | .reservedName name => "The name " ++ quote name ++ " is reserved at line " ++ line
  | .recordTooLarge record =>
    "Record " ++ quote record ++ " at line " ++ line ++ " is too large to lay out"

end FlatRecord
