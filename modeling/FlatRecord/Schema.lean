import FlatRecord.Catalog

/-!
# Schemas

A schema is a list of records, a record a list of fields, each with the line
it was declared on and the comments in front of it. The shape of a field says
how many values of its scalar type it holds, and how.

These types hold any names, shapes and lengths. Which of them a schema text
can give rise to is the reader's business (`FlatRecord.Reader`), and which
names may stand together is that of `FlatRecord.Naming`.
-/

namespace FlatRecord

/-- How a field holds values of its scalar type. -/
inductive Shape where
  /-- One value. -/
  | scalar
  /-- A fixed number of values. -/
  | array (length : Nat)
  /-- One value, or with a length an array of them, that may be absent. -/
  | optional (length : Option Nat)
  /-- Text of at most the given capacity, seen as a string. -/
  | string (capacity : Option Nat)
  /-- Text of at most the given capacity, seen as a pointer to characters. -/
  | cString (capacity : Option Nat)
deriving DecidableEq, Repr

/-- The length as it was written, if one was. -/
def Shape.length? : Shape → Option Nat
  | .scalar => none
  | .array length => some length
  | .optional length => length
  | .string capacity => capacity
  | .cString capacity => capacity

/-- A field of a record. -/
structure Field where
  /-- The name of the field. -/
  name : String
  /-- The line of its declaration. -/
  line : Nat
  /-- The comments in front of it. -/
  docs : List String
  /-- How it holds its values. -/
  shape : Shape
  /-- The scalar type of its values. -/
  type : ScalarType
  /-- Whether it was declared mutable. -/
  mutable : Bool
deriving DecidableEq, Repr

/-- Whether a field gets a setter, `allMutable` granting one to every field. -/
def Field.hasSetter (f : Field) (allMutable : Bool) : Bool := f.mutable || allMutable

/-- A record: a name and the fields under it. -/
structure Record where
  /-- The name of the record. -/
  name : String
  /-- The line of its header. -/
  line : Nat
  /-- The comments in front of its header. -/
  docs : List String
  /-- Its fields, in the order of their declarations. -/
  fields : List Field
deriving DecidableEq, Repr

/-- A schema: its records, in the order of their declarations. -/
structure Schema where
  /-- The records of the schema. -/
  records : List Record
deriving DecidableEq, Repr

end FlatRecord
