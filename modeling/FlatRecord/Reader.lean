import FlatRecord.FieldLine
import FlatRecord.Line

/-!
# Reading a schema

A schema text is a sequence of blocks. A block is an unindented header and the
indented field lines under it, and a blank line or the end of the text closes
it. A comment documents the next declaration: comments are kept aside until it
comes, across blank lines if need be.

The reader takes one line at a time. Its state says whether a block is open,
holds the comments not yet attached and the records already closed. A line that
breaks a rule is rejected and whatever block was open is abandoned with it;
comments and closed records stay, and the reader can be fed on.
-/

namespace FlatRecord

/-- Where in the sequence of blocks a reader stands. -/
inductive Stage where
  /-- Between blocks. -/
  | idle
  /-- Under a header without a field so far. -/
  | header (record : Record)
  /-- In a block with at least one field. -/
  | block (record : Record)
deriving DecidableEq, Repr

/-- The stage of an open block, by whether it has a field. -/
def Stage.ofRecord (record : Record) : Stage :=
  if record.fields.isEmpty then .header record else .block record

/-- What a reader holds between two lines. -/
structure Reader where
  /-- Where it stands. -/
  stage : Stage
  /-- The comments waiting for a declaration. -/
  comments : List String
  /-- The records of the blocks closed so far. -/
  finished : List Record
deriving DecidableEq, Repr

/-- A step of reading: it may fail, and leaves a reader behind either way. -/
abbrev Reading := EStateM SchemaError Reader

/-- Turns what is wrong with a text into an error at its line. -/
def Reading.ofExcept {α : Type} (line : Nat) : Except Violation α → Reading α
  | .ok a => pure a
  | .error v => throw ⟨line, v⟩

namespace Reader

/-- The reader before the first line. -/
def fresh : Reader := ⟨.idle, [], []⟩

/-- Fails at a line. -/
def reject {α : Type} (line : Nat) (v : Violation) : Reading α := throw ⟨line, v⟩

/-- Moves to a stage. -/
def enter (stage : Stage) : Reading Unit := modify fun r => { r with stage }

/-- Keeps a comment for the next declaration. -/
def keepComment (text : String) : Reading Unit :=
  modify fun r => { r with comments := r.comments ++ [text] }

/-- Hands over the comments kept so far. -/
def takeComments : Reading (List String) := do
  let r ← get
  set { r with comments := [] }
  return r.comments

/-- Closes a block at a line: no comment may be waiting, and it needs a field. -/
def close (record : Record) (line : Nat) : Reading Unit := do
  unless (← get).comments.isEmpty do
    reject line .orphanedComment
  if record.fields.isEmpty then
    reject line (.emptyRecord record.name)
  modify fun r => { r with finished := r.finished ++ [record] }

/-- Reads a line between blocks, and says where that leads. -/
def feedOutside (line : Line) : Reading Stage :=
  match line.content, line.indented with
  | .blank, _ => return .idle
  | _, true => reject line.number .unexpectedIndent
  | .comment text, false => do
    keepComment text
    return .idle
  | .header name, false =>
    if Text.isIdentifier name.toList then do
      let docs ← takeComments
      return .header { name, line := line.number, docs, fields := [] }
    else reject line.number (.invalidIdentifier name)
  | .text text, false => reject line.number (.malformed (.strayText text))

/-- Reads a line of an open block, and says where that leads. -/
def feedInside (record : Record) (line : Line) : Reading Stage :=
  match line.content, line.indented with
  | .blank, _ => do
    close record line.number
    return .idle
  | _, false => reject line.number .missingIndent
  | .comment text, true => do
    keepComment text
    return .ofRecord record
  | .header name, true => reject line.number (.malformed (.nestedRecord name record.name))
  | .text text, true => do
    let field ← Reading.ofExcept line.number (Field.read text line.number)
    let docs ← takeComments
    return .ofRecord { record with fields := record.fields ++ [{ field with docs }] }

/-- Reads a line. The reader stands idle while it does, which is where a line
that is rejected leaves it. -/
def feed (line : Line) : Reading Unit := do
  let stage := (← get).stage
  enter .idle
  match stage with
  | .idle => enter (← feedOutside line)
  | .header record | .block record => enter (← feedInside record line)

/-- Ends the text after its last line, closing the block that is open. -/
def finish (lastLine : Nat) : Reading (List Record) := do
  let r ← get
  match r.stage with
  | .idle =>
    unless r.comments.isEmpty do
      reject lastLine .orphanedComment
  | .header record | .block record => close record lastLine
  return (← get).finished

/-- Reads lines one after the other. -/
def feedAll : List Line → Reading Unit
  | [] => pure ()
  | line :: rest => do
    feed line
    feedAll rest

end Reader

/-- The result of reading, the reader that is left put aside. -/
def Reading.result {α : Type} (x : Reading α) (r : Reader) : Except SchemaError α :=
  match x.run r with
  | .ok a _ => .ok a
  | .error e _ => .error e

/-- Reads a sequence of lines to its end. -/
def Schema.ofLines (lines : List Line) : Except SchemaError Schema :=
  let reading : Reading (List Record) := do
    Reader.feedAll lines
    Reader.finish lines.length
  (reading.result Reader.fresh).map Schema.mk

/-- Reads a schema text, up to the first line that breaks a rule. -/
def Schema.read (text : String) : Except SchemaError Schema :=
  Schema.ofLines (Line.ofText text)

end FlatRecord
