/-!
# Text for a terminal

What goes to a log may hold text from outside, and a terminal that shows the log
acts on some characters instead of showing them: the escape and bell characters
and the like, and the whole block of controls from U+0080 to U+009F. Such a
character is spelled out with its number in hexadecimal digits. Line feeds, tabs
and carriage returns only move about and are let through.
-/

namespace FlatRecord.Text

/-- The hexadecimal digits of the number of a character, at least two. -/
def hexDigits (c : Char) : List Char :=
  match Nat.toDigits 16 c.toNat with
  | [d] => ['0', d]
  | ds => ds

/-- Whether a character below U+0080 is one that a terminal acts on. -/
def isAsciiControl (c : Char) : Bool :=
  c == '\x1b' || c == '\x07' || c == '\x08' || c == '\x0c' || c == '\x7f'

/-- Whether a character is one of the controls above ASCII. -/
def isLatinControl (c : Char) : Bool := 0x80 ≤ c.toNat && c.toNat ≤ 0x9F

/-- A character in a form that a terminal only shows. -/
def inertChar (c : Char) : List Char :=
  if isAsciiControl c then '\\' :: 'x' :: hexDigits c
  else if isLatinControl c then '\\' :: 'u' :: '\x7b' :: hexDigits c ++ ['\x7d']
  else [c]

/-- A text in a form that a terminal only shows. -/
def inert (s : String) : String := String.ofList (s.toList.flatMap inertChar)

end FlatRecord.Text
