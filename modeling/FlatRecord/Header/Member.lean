import FlatRecord.Header.TypeExpr
import FlatRecord.Layout
import FlatRecord.Naming
import FlatRecord.Text.Blank

/-!
# The members of a class

What the class of a record declares for one of its fields: a parameter of the
constructor with the statement that stores it, a getter, possibly a setter, and
the constant that holds the field's offset. Each is first a value, made from the
field or its slot, and then a line of source. Stores and reads name the offset
constant they go to, so that what is read where can be told without looking at
text.
-/

namespace FlatRecord

/-- A statement that stores a value in the buffer. -/
structure Store where
  /-- The offset constant of the place. -/
  constant : String
  /-- The value, as an expression. -/
  value : String
  /-- The capacity, for text. -/
  capacity : Option Nat
deriving DecidableEq, Repr

/-- How a getter reads the buffer. -/
inductive BufferRead where
  /-- As a value of a type. -/
  | typed (type : TypeExpr)
  /-- As a pointer to text. -/
  | cString
  /-- As a view of text. -/
  | string
deriving DecidableEq, Repr

/-- A member function that reads a field. -/
structure Getter where
  /-- Its name. -/
  name : String
  /-- The type of its result, short of a reference. -/
  result : TypeExpr
  /-- How it reads. -/
  buffer : BufferRead
  /-- The offset constant of the place. -/
  constant : String
deriving DecidableEq, Repr

/-- A parameter of a function. -/
structure Parameter where
  /-- Its type. -/
  type : TypeExpr
  /-- Its name. -/
  name : String
deriving DecidableEq, Repr

/-- A member function that sets a field. -/
structure Setter where
  /-- Its name. -/
  name : String
  /-- The value to set. -/
  parameter : Parameter
  /-- The statement that sets it. -/
  store : Store
deriving DecidableEq, Repr

/-- The documented member functions of a field. -/
structure Accessor where
  /-- The comments of the field. -/
  docs : List String
  /-- The function that reads it. -/
  getter : Getter
  /-- The function that sets it, if there is one. -/
  setter : Option Setter
deriving DecidableEq, Repr

/-- A constant that holds an offset. -/
structure OffsetConstant where
  /-- Its name. -/
  name : String
  /-- The offset. -/
  offset : Nat
  /-- The bytes left free before the field. -/
  padding : Nat
deriving DecidableEq, Repr

/-! ## From fields and slots -/

namespace Field

/-- The parameter that a field is set by. -/
def parameter (f : Field) : Parameter := ⟨f.parameterType, f.name⟩

/-- The statement that stores the parameter of a field. -/
def store (f : Field) : Store :=
  let constant := offsetConstant f.name
  match f.shape with
  | .string capacity => ⟨constant, f.name ++ ".c_str()", some (textCapacity capacity)⟩
  | .cString capacity => ⟨constant, f.name, some (textCapacity capacity)⟩
  | _ => ⟨constant, f.name, none⟩

/-- The function that reads a field. -/
def getter (f : Field) : Getter :=
  let buffer := match f.shape with
    | .string _ => .string
    | .cString _ => .cString
    | _ => .typed f.resultType
  { name := f.name, result := f.resultType, buffer, constant := offsetConstant f.name }

/-- The function that sets a field. -/
def setter (f : Field) : Setter := ⟨f.name, f.parameter, f.store⟩

/-- The member functions of a field. -/
def accessor (f : Field) (allMutable : Bool) : Accessor where
  docs := f.docs
  getter := f.getter
  setter := if f.hasSetter allMutable then some f.setter else none

end Field

/-- The constant that holds the offset of a slot. -/
def Slot.constant (s : Slot) : OffsetConstant := ⟨offsetConstant s.name, s.offset, s.padding⟩

/-! ## To source -/

/-- A line of a comment block, with nothing blank at its end. -/
def docLine (indent text : String) : String :=
  String.ofList (Text.trimEnd (indent ++ " * " ++ text).toList)

/-- The comment block over a declaration. Without comments there is none. -/
def docBlock (indent : String) (heading docs : List String) : List String :=
  if docs.isEmpty then []
  else (indent ++ "/**") :: (heading ++ docs).map (docLine indent) ++ [indent ++ " */"]

/-- The indentation of members. -/
def memberIndent : String := "    "

/-- A store, as a statement. -/
def Store.render (s : Store) : String :=
  let capacity := match s.capacity with
    | some n => ", " ++ n.repr
    | none => ""
  "assign_buffer(" ++ s.constant ++ ", " ++ s.value ++ capacity ++ ");"

/-- A parameter, as it stands in a list of them. -/
def Parameter.render (p : Parameter) : String := p.type.declare p.name

/-- A getter, on one line. One that reads a value of a type gives out a
reference into the buffer. -/
def Getter.render (g : Getter) : String :=
  let (signature, buffer) := match g.buffer with
    | .typed type =>
      (g.result.render ++ " &" ++ g.name, "buffer_at<" ++ type.render ++ ">")
    | .cString => (g.result.declare g.name, "buffer_at_cstr")
    | .string => (g.result.declare g.name, "buffer_at_str")
  memberIndent ++ "inline " ++ signature ++ "() const \x7b return " ++ buffer
    ++ "(" ++ g.constant ++ "); \x7d"

/-- A setter, on one line. -/
def Setter.render (s : Setter) : String :=
  memberIndent ++ "inline void " ++ s.name ++ "(" ++ s.parameter.render ++ ") \x7b "
    ++ s.store.render ++ " \x7d"

/-- The lines of a setter: its comments under a heading, then the function. -/
def Setter.lines (s : Setter) (docs : List String) : List String :=
  docBlock memberIndent ["(Setter)"] docs ++ [s.render]

/-- The lines of a getter: its comments, then the function. -/
def Getter.lines (g : Getter) (docs : List String) : List String :=
  docBlock memberIndent [] docs ++ [g.render]

/-- The lines of the member functions of a field. -/
def Accessor.lines (a : Accessor) : List String :=
  a.getter.lines a.docs ++ (a.setter.map (·.lines a.docs)).getD []

/-- An offset constant, on one line, with a note of the padding before it. -/
def OffsetConstant.render (c : OffsetConstant) : String :=
  let note := if c.padding = 0 then "" else " /* " ++ c.padding.repr ++ " padding */"
  memberIndent ++ "static constexpr size_t " ++ c.name ++ " = " ++ c.offset.repr ++ ";" ++ note

end FlatRecord
