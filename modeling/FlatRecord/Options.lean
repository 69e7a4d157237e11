import FlatRecord.Text.Identifier
import FlatRecord.Text.Pieces

/-!
# Options

What a user can choose about the generated headers: how a header protects
itself against being included twice, the namespace around the class, the
extension of the file, and whether every field gets a setter.
-/

namespace FlatRecord

/-- How a header protects itself against being included twice. -/
inductive InclusionGuard where
  /-- By `#pragma once`. -/
  | pragmaOnce
  /-- By a macro named after the record. -/
  | macroName
deriving DecidableEq, Repr

/-- The choices that hold for all headers of a run. -/
structure Options where
  /-- The protection against double inclusion. -/
  inclusionGuard : InclusionGuard := .pragmaOnce
  /-- The namespace around each class, possibly nested by `::`. -/
  scope : Option String := none
  /-- What follows the name of the record in the name of the file. -/
  extension : String := ".gen.hpp"
  /-- Whether every field gets a setter. -/
  allMutable : Bool := false
deriving DecidableEq, Repr

/-- Whether a namespace can be opened: every name between its `::` is an
identifier. -/
def isScope (scope : String) : Bool := (Text.scopes scope.toList).all Text.isIdentifier

namespace Options

/-- The namespace, when one is given that cannot be opened. -/
def invalidScope? (o : Options) : Option String := o.scope.filter (!isScope ·)

/-- Whether the extension begins with a period. -/
def extensionHasPeriod (o : Options) : Bool := o.extension.toList.head? == some '.'

end Options

end FlatRecord
