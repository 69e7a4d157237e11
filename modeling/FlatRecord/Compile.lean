import FlatRecord.Event
import FlatRecord.Header
import FlatRecord.Reader

/-!
# Compiling a schema

From the text of a schema to the headers of its records, without touching a
file: the text is read, its names are checked, and every record is laid out and
rendered. The first error in that order is the outcome, so nothing comes of a
schema that is wrong anywhere.
-/

namespace FlatRecord

/-- A header ready to be written. -/
structure HeaderFile where
  /-- The name of its record. -/
  record : String
  /-- The name of the file. -/
  fileName : String
  /-- What goes into the file. -/
  source : String
  /-- The layout of the record. -/
  layout : Layout
deriving DecidableEq, Repr

/-- What a schema compiles to. -/
structure Compilation where
  /-- The schema. -/
  schema : Schema
  /-- The headers of its records, in their order. -/
  files : List HeaderFile
deriving DecidableEq, Repr

namespace Record

/-- The header of a record under the layout it has. -/
def headerFile (r : Record) (options : Options) : Except SchemaError HeaderFile := do
  let layout ← r.layout
  return {
    record := r.name
    fileName := r.fileName options
    source := (r.header layout options).render
    layout }

end Record

namespace Schema

/-- A schema read and found to have good names. -/
def readChecked (text : String) : Except SchemaError Schema := do
  let schema ← read text
  schema.checkNames
  return schema

/-- The headers of records, up to the first that cannot be laid out. -/
def headerFiles (options : Options) : List Record → Except SchemaError (List HeaderFile)
  | [] => .ok []
  | r :: rest => do
    let file ← r.headerFile options
    return file :: (← headerFiles options rest)

/-- What is reported while records are laid out: one event for each record
before the first that cannot be. -/
def layoutEvents : List Record → List Event
  | [] => []
  | r :: rest =>
    match r.layout with
    | .ok layout =>
      .laidOut layout.record layout.slots.length layout.bufferSize :: layoutEvents rest
    | .error _ => []

end Schema

/-- Compiles a schema text. -/
def compile (text : String) (options : Options) : Except SchemaError Compilation := do
  let schema ← Schema.readChecked text
  return ⟨schema, ← Schema.headerFiles options schema.records⟩

/-- What is reported while a schema text is compiled. -/
def compileEvents (text : String) : List Event :=
  match Schema.readChecked text with
  | .ok schema => Schema.layoutEvents schema.records
  | .error _ => []

end FlatRecord
