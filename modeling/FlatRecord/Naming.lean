import FlatRecord.Schema
import FlatRecord.Violation

/-!
# Names that can stand together

The class generated for a record declares a member for each field, a constant
for each field's offset, and a few members of its own on top of those it
inherits. A schema is refused where two of these names would meet: a name that
is taken already, a record or a field declared twice, a field named like its
class, and a field named like the offset constant of a field of the same record.

Declarations are checked in order, so the first one at fault is reported, and
of a name that is both taken and repeated it is reported that it is taken.
-/

namespace FlatRecord

/-- The names of the base class, its members and the members that every class
declares. -/
def runtimeNames : List String :=
  ["buffer_size", "Record", "SeriStruct", "alloc", "assign_buffer", "buffer_at",
   "buffer_at_cstr", "buffer_at_str", "size"]

/-- The keywords of C++. -/
def keywords : List String :=
  ["alignas", "alignof", "and", "and_eq", "asm", "auto", "bitand", "bitor", "bool", "break",
   "case", "catch", "char", "char8_t", "char16_t", "char32_t", "class", "compl", "concept",
   "const", "consteval", "constexpr", "constinit", "const_cast", "continue", "co_await",
   "co_return", "co_yield", "decltype", "default", "delete", "do", "double", "dynamic_cast",
   "else", "enum", "explicit", "export", "extern", "false", "float", "for", "friend",
   "goto", "if", "inline", "int", "long", "mutable", "namespace", "new", "noexcept", "not",
   "not_eq", "nullptr", "operator", "or", "or_eq", "private", "protected", "public",
   "register", "reinterpret_cast", "requires", "return", "short", "signed", "sizeof",
   "static", "static_assert", "static_cast", "struct", "switch", "template", "this",
   "thread_local", "throw", "true", "try", "typedef", "typeid", "typename", "union",
   "unsigned", "using", "virtual", "void", "volatile", "wchar_t", "while", "xor", "xor_eq"]

/-- Whether no record and no field may have this name. -/
def isReserved (name : String) : Bool := runtimeNames.contains name || keywords.contains name

/-- The name of the constant that holds the offset of a field. -/
def offsetConstant (field : String) : String := "offset_" ++ field

namespace Record

/-- Whether a name is that of the offset constant of some field of the record. -/
def hasOffsetConstant (r : Record) (name : String) : Bool :=
  r.fields.any (offsetConstant ·.name == name)

/-- What is wrong with the name of a field, given the fields declared before it. -/
def fieldViolation? (r : Record) (earlier : List Field) (f : Field) : Option Violation :=
  if r.hasOffsetConstant f.name || isReserved f.name || f.name == r.name then
    some (.reservedName f.name)
  else if earlier.any (·.name == f.name) then some (.duplicateField r.name f.name)
  else none

/-- Checks the names of fields of the record, given those declared before them. -/
def checkFields (r : Record) (earlier : List Field) : List Field → Except SchemaError Unit
  | [] => .ok ()
  | f :: rest =>
    match r.fieldViolation? earlier f with
    | some v => .error ⟨f.line, v⟩
    | none => r.checkFields (earlier ++ [f]) rest

/-- What is wrong with the name of a record, given the records declared before it. -/
def violation? (earlier : List Record) (r : Record) : Option Violation :=
  if isReserved r.name then some (.reservedName r.name)
  else if earlier.any (·.name == r.name) then some (.duplicateRecord r.name)
  else none

end Record

namespace Schema

/-- Checks the names of records and of their fields, given the records declared
before them. -/
def checkRecords (earlier : List Record) : List Record → Except SchemaError Unit
  | [] => .ok ()
  | r :: rest =>
    match r.violation? earlier with
    | some v => .error ⟨r.line, v⟩
    | none => do
      r.checkFields [] r.fields
      checkRecords (earlier ++ [r]) rest

/-- Checks the names of a schema. -/
def checkNames (s : Schema) : Except SchemaError Unit := checkRecords [] s.records

end Schema

end FlatRecord
