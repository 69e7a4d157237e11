import FlatRecord.Size
import FlatRecord.Violation

/-!
# Type tokens

The second word of a field line is its type: a name, possibly with a length in
square brackets, and all of it possibly inside `optional<…>`. The name is the
longest run of ASCII letters, digits and underscores, and a length is a run of
ASCII digits whose value is a size other than zero.

A token is read from the left in four steps – the opening `optional<`, the
name, the bracket, the closing `>` – each of which consumes what it recognises
and hands on the rest, and nothing may be left over after the last.
-/

namespace FlatRecord

/-- A type as it is written on a field line. -/
structure TypeToken where
  /-- Whether it is wrapped in `optional<…>`. -/
  isOptional : Bool
  /-- The name of the scalar type. -/
  name : String
  /-- The length in brackets, if one is given. -/
  length : Option Nat
deriving DecidableEq, Repr

namespace TypeToken

/-- What opens an optional type. -/
def optionalOpener : List Char := ['o', 'p', 't', 'i', 'o', 'n', 'a', 'l', '<']

/-- Whether a character may stand in the name of a type. -/
def isNameChar (c : Char) : Bool := c.isAlphanum || c == '_'

/-- Takes `optional<` off the start of a token, if it stands there. -/
def takeOpener (cs : List Char) : Bool × List Char :=
  match optionalOpener.isPrefixOf? cs with
  | some rest => (true, rest)
  | none => (false, cs)

/-- The length that a run of digits gives. -/
def lengthOfDigits (digits : List Char) : Except Violation Nat :=
  let n := Nat.ofDigitChars 10 digits 0
  if 0 < n ∧ n < Size.limit then .ok n else .error (.invalidLength (String.ofList digits))

/-- Takes a length in brackets off the start of what follows the name. -/
def takeLength (token : String) : List Char → Except Violation (Option Nat × List Char)
  | '[' :: cs =>
    match cs.takeWhile Char.isDigit, cs.dropWhile Char.isDigit with
    | d :: ds, ']' :: rest => do
      let n ← lengthOfDigits (d :: ds)
      return (some n, rest)
    | _, _ => .error (.malformed (.bracket token))
  | cs => .ok (none, cs)

/-- Without a bracket there is no length. -/
theorem takeLength_of_head? {token : String} {cs : List Char} (h : cs.head? ≠ some '[') :
    takeLength token cs = .ok (none, cs) := by
  unfold takeLength
  split
  · exact absurd rfl h
  · rfl

/-- Takes the `>` that closes an optional type off the start of the rest. -/
def takeCloser (token : String) : Bool → List Char → Except Violation (List Char)
  | false, cs => .ok cs
  | true, '>' :: cs => .ok cs
  | true, _ => .error (.malformed (.unclosedOptional token))

/-- Reads a type token. -/
def read (token : String) : Except Violation TypeToken :=
  let (isOptional, cs) := takeOpener token.toList
  let name := cs.takeWhile isNameChar
  if name.isEmpty then .error (.malformed (.typeName token))
  else do
    let (length, cs) ← takeLength token (cs.dropWhile isNameChar)
    let rest ← takeCloser token isOptional cs
    if rest.isEmpty then return ⟨isOptional, String.ofList name, length⟩
    else .error (.malformed (.leftover (String.ofList rest) token))

end TypeToken

end FlatRecord
