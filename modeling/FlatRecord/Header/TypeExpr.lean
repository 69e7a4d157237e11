import FlatRecord.Schema

/-!
# The types of accessors

A field meets the outside in two types: that of the parameter that sets it and
that of the result that reads it. Both are built from the spellings of its
scalar type, by arrays and optionals as its shape asks for, and a parameter
that is built so is taken by constant reference. A type is kept as an
expression, so that its size can be spoken of, and spelled out last.
-/

namespace FlatRecord

/-- A C++ type. -/
inductive TypeExpr where
  /-- A type with a spelling of its own. -/
  | named (spelling : String)
  /-- A `std::array`. -/
  | array (element : TypeExpr) (length : Nat)
  /-- A `std::optional`. -/
  | optional (value : TypeExpr)
  /-- A reference to a constant. -/
  | constRef (target : TypeExpr)
deriving DecidableEq, Repr

namespace TypeExpr

/-- The spelling of a type. -/
def render : TypeExpr → String
  | .named spelling => spelling
  | .array element length => "std::array<" ++ element.render ++ ", " ++ length.repr ++ ">"
  | .optional value => "std::optional<" ++ value.render ++ ">"
  | .constRef target => "const " ++ target.render ++ " &"

/-- The declaration of a name at a type. A pointer or reference mark stands
next to the name. -/
def declare (t : TypeExpr) (name : String) : String :=
  let spelling := t.render
  match spelling.toList.getLast? with
  | some '*' | some '&' => spelling ++ name
  | _ => spelling ++ " " ++ name

end TypeExpr

namespace Shape

/-- Whether a field of this shape is text. -/
def isText : Shape → Bool
  | .string _ | .cString _ => true
  | _ => false

/-- Whether values may be absent. -/
def isOptional : Shape → Bool
  | .optional _ => true
  | _ => false

end Shape

namespace Field

/-- The values of a field that is not text: arrays are made of parameters'
types, a single value has the type given. -/
def valueType (f : Field) (single : TypeExpr) : TypeExpr :=
  let value := match f.shape.length? with
    | some length => .array (.named f.type.parameterForm) length
    | none => single
  if f.shape.isOptional then .optional value else value

/-- The type of the parameter that sets the field. -/
def parameterType (f : Field) : TypeExpr :=
  let single := TypeExpr.named f.type.parameterForm
  if f.shape.isText then single
  else if f.shape.isOptional || f.shape.length?.isSome then .constRef (f.valueType single)
  else single

/-- The type of the result that reads the field. -/
def resultType (f : Field) : TypeExpr :=
  let single := TypeExpr.named f.type.resultForm
  if f.shape.isText then single else f.valueType single

end Field

end FlatRecord
