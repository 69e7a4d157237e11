import FlatRecord.Header.ClassDecl
import FlatRecord.Options
import FlatRecord.Text.Uppercase

/-!
# Headers

A header holds the class of one record, with what the options put around it:
the protection against double inclusion and the namespace. The choices enter
in the lines before and after the class; on the class itself only the choice of
setters for all fields has an influence.
-/

namespace FlatRecord

/-- The header of a record. -/
structure Header where
  /-- The macro that guards the header, when it is guarded by one. -/
  macroName : Option String
  /-- The namespace around the class. -/
  scope : Option String
  /-- The class. -/
  body : ClassDecl
deriving DecidableEq, Repr

namespace Record

/-- The macro that guards the header of a record: its name in upper case,
between fixed ends. -/
def guardMacro (r : Record) : String :=
  "SERISTRUCT_RECORD_" ++ String.ofList (Text.uppercase r.name.toList) ++ "_HPP"

/-- The name of the file that the header of a record goes to. -/
def fileName (r : Record) (options : Options) : String := r.name ++ options.extension

/-- The header of a record under a layout. -/
def header (r : Record) (layout : Layout) (options : Options) : Header where
  macroName :=
    match options.inclusionGuard with
    | .macroName => some r.guardMacro
    | .pragmaOnce => none
  scope := options.scope
  body := .ofRecord r layout options.allMutable

end Record

namespace Header

/-- What stands before the class. -/
def openingLines (h : Header) : List String :=
  (match h.macroName with
    | some name => ["#ifndef " ++ name, "#define " ++ name, ""]
    | none => ["#pragma once"])
    ++ ["#include <SeriStruct.hpp>", ""]
    ++ (match h.scope with
      | some scope => ["namespace " ++ scope, "\x7b"]
      | none => [])
    ++ ["using SeriStruct::Record;", ""]

/-- What stands after the class. -/
def closingLines (h : Header) : List String :=
  (match h.scope with
    | some scope => ["\x7d /* " ++ scope ++ " */"]
    | none => [])
    ++ (match h.macroName with
      | some _ => ["", "#endif"]
      | none => [])

/-- The lines of a header. -/
def lines (h : Header) : List String := h.openingLines ++ h.body.lines ++ h.closingLines

/-- The text of a header: its lines, each ended by a line feed. -/
def render (h : Header) : String := String.join (h.lines.map (· ++ "\n"))

end Header

end FlatRecord
