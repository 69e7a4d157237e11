/-!
# The catalog of scalar types

Every kind of value that a field can hold is an entry of one catalog. An entry
knows how its type is written in a schema and in C++ – as a parameter and as a
result – and how much room one value takes. The two string types take their
room by capacity, one byte a character, and are aligned like a pointer.
-/

namespace FlatRecord

/-- How the values of a scalar type are stored. -/
inductive Storage where
  /-- Inline, as the native representation. -/
  | plain
  /-- As bounded NUL-terminated text, handed in and out as a pointer. -/
  | cString
  /-- As bounded NUL-terminated text, handed in as a string and out as a view. -/
  | string
deriving DecidableEq, Repr

/-- A scalar type of the schema language. -/
structure ScalarType where
  /-- The name in a schema. -/
  name : String
  /-- The spelling as the type of a parameter. -/
  parameterForm : String
  /-- The spelling as the type of a result. -/
  resultForm : String
  /-- The bytes one value takes; for text, one character. -/
  width : Nat
  /-- The alignment unit, in bytes. -/
  align : Nat
  /-- How values are stored. -/
  storage : Storage
deriving DecidableEq, Repr

namespace ScalarType

/-- The alignment of a native pointer. -/
def pointerAlign : Nat := 8

/-- A type stored inline, aligned to its own width. -/
def ofPlain (name spelling : String) (width : Nat) : ScalarType where
  name := name
  parameterForm := spelling
  resultForm := spelling
  width := width
  align := width
  storage := .plain

/-- Every scalar type there is. -/
def catalog : List ScalarType :=
  [ofPlain "bool" "bool" 1,
   ofPlain "char" "char" 1,
   ofPlain "f32" "float" 4,
   ofPlain "f64" "double" 8,
   ofPlain "i8" "int8_t" 1,
   ofPlain "i16" "int16_t" 2,
   ofPlain "i32" "int32_t" 4,
   ofPlain "i64" "int64_t" 8,
   ofPlain "u8" "uint8_t" 1,
   ofPlain "u16" "uint16_t" 2,
   ofPlain "u32" "uint32_t" 4,
   ofPlain "u64" "uint64_t" 8,
   ofPlain "uchar" "unsigned char" 1,
   { name := "cstr", parameterForm := "const char *", resultForm := "const char *",
     width := 1, align := pointerAlign, storage := .cString },
   { name := "str", parameterForm := "const std::string &", resultForm := "std::string_view",
     width := 1, align := pointerAlign, storage := .string }]

/-- The scalar type of a name, if the catalog has it. -/
def find? (name : String) : Option ScalarType := catalog.find? (·.name == name)

/-- Whether values are text of bounded length. -/
def isText (t : ScalarType) : Bool := t.storage != .plain

theorem mem_catalog_of_find? {name : String} {t : ScalarType} (h : find? name = some t) :
    t ∈ catalog :=
  List.mem_of_find?_eq_some h

theorem name_of_find? {name : String} {t : ScalarType} (h : find? name = some t) :
    t.name = name := by
  simpa using List.find?_some h

end ScalarType

end FlatRecord
