import FlatRecord.Text.Uppercase.Table

/-!
# Upper case

Text is put into upper case character by character with the full mapping,
which may lengthen it: `ß` becomes `SS`. No character's form depends on its
neighbours.
-/

namespace FlatRecord.Text

/-- Whether a code point belongs to a run. -/
def CaseRun.has (r : CaseRun) (n : Nat) : Bool :=
  r.first ≤ n && n ≤ r.last && (n - r.first) % r.stride == 0

/-- The upper-case form of a character. -/
def uppercaseChar (c : Char) : List Char :=
  match expansions.lookup c.toNat with
  | some form => form.map Char.ofNat
  | none =>
    match caseRuns.find? (·.has c.toNat) with
    | some run => [Char.ofNat (run.image + (c.toNat - run.first))]
    | none => [c]

/-- The upper-case form of a text. -/
def uppercase (cs : List Char) : List Char := cs.flatMap uppercaseChar

end FlatRecord.Text
