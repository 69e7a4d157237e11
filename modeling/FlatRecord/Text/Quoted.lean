/-!
# Quoted text

Text is quoted as a JSON string: between double quotes, with the quote, the
backslash and the control characters below the space escaped. Five of these
have a short escape; the others are written with four hexadecimal digits in
lower case. Everything else stands as it is.
-/

namespace FlatRecord.Text

/-- The escape of a control character without a short one. -/
def hexEscape (c : Char) : List Char :=
  ['\\', 'u', '0', '0', Nat.digitChar (c.toNat / 16), Nat.digitChar (c.toNat % 16)]

/-- A character as it stands between the quotes. -/
def escape (c : Char) : List Char :=
  if c = '"' then ['\\', '"']
  else if c = '\\' then ['\\', '\\']
  else if c = '\x08' then ['\\', 'b']
  else if c = '\x0c' then ['\\', 'f']
  else if c = '\n' then ['\\', 'n']
  else if c = '\r' then ['\\', 'r']
  else if c = '\t' then ['\\', 't']
  else if c.toNat < 0x20 then hexEscape c
  else [c]

/-- The quoted form of a text. -/
def quoteChars (cs : List Char) : List Char :=
  '"' :: cs.flatMap escape ++ ['"']

/-- The quoted form of a string. -/
def quote (s : String) : String := String.ofList (quoteChars s.toList)

end FlatRecord.Text
