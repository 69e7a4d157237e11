/-!
# Ranges of code points

A property of characters that a standard gives as a table is kept here as a
list of closed ranges of code points. A character has the property when its
code point lies in one of them.
-/

namespace FlatRecord.Text

/-- A closed range of code points. -/
structure CodeRange where
  /-- The first code point of the range. -/
  first : Nat
  /-- The last code point of the range. -/
  last : Nat

/-- Whether a character lies in the range. -/
def CodeRange.has (r : CodeRange) (c : Char) : Bool :=
  r.first ≤ c.toNat && c.toNat ≤ r.last

/-- Whether a character lies in one of the ranges of a table. -/
def inRanges (table : List CodeRange) (c : Char) : Bool :=
  table.any (·.has c)

theorem CodeRange.has_iff {r : CodeRange} {c : Char} :
    r.has c = true ↔ r.first ≤ c.toNat ∧ c.toNat ≤ r.last := by
  simp [has]

theorem inRanges_iff {table : List CodeRange} {c : Char} :
    inRanges table c = true ↔ ∃ r ∈ table, r.first ≤ c.toNat ∧ c.toNat ≤ r.last := by
  simp [inRanges, CodeRange.has_iff]

end FlatRecord.Text
