import FlatRecord.Schema
import FlatRecord.Size
import FlatRecord.Violation

/-!
# Layout

A record is stored in one buffer. Its fields stand there in the order of their
declarations, each padded up to its own alignment unit, just as a compiler
places the members of a struct, except that nothing is added after the last.

All of this is arithmetic on sizes (`FlatRecord.Size`). The first field whose
width or end is no size makes the record too large.
-/

namespace FlatRecord

/-- What bounded text needs beyond its capacity: a presence flag, padded to a
pointer, and the closing NUL. -/
def textOverhead : Nat := ScalarType.pointerAlign + 1

/-- The capacity of a text field; one character when none is given. -/
def textCapacity (capacity : Option Nat) : Nat := capacity.getD 1

/-- The bytes to leave free after `cursor` so that a multiple of `align` is
reached. -/
def paddingTo (cursor align : Nat) : Nat := (align - cursor % align) % align

theorem paddingTo_lt (cursor : Nat) {align : Nat} (h : 0 < align) :
    paddingTo cursor align < align :=
  Nat.mod_lt _ h

/-- Padding reaches a multiple of the unit. -/
theorem dvd_add_paddingTo (cursor : Nat) {align : Nat} (h : 0 < align) :
    align ∣ cursor + paddingTo cursor align := by
  have hlt := Nat.mod_lt cursor h
  refine Nat.dvd_of_mod_eq_zero ?_
  rw [paddingTo, Nat.add_mod, Nat.mod_mod]
  by_cases h0 : cursor % align = 0
  · simp [h0]
  · rw [Nat.mod_eq_of_lt (by omega : align - cursor % align < align),
      Nat.add_sub_cancel' (Nat.le_of_lt hlt), Nat.mod_self]

namespace Field

/-- The bytes a field takes, when that is a size. An optional value has a flag
in front of it, padded to the alignment of the value. -/
def width? (f : Field) : Option Nat :=
  match f.shape with
  | .scalar => some f.type.width
  | .array length => Size.mul? f.type.width length
  | .optional none => Size.mul? f.type.width 2
  | .optional (some length) => do Size.add? (← Size.mul? f.type.width length) f.type.width
  | .string capacity | .cString capacity => do
    Size.add? (← Size.mul? f.type.width (textCapacity capacity)) textOverhead

/-- The unit a field is aligned to: that of its type for text, otherwise the
width of one value. -/
def alignUnit (f : Field) : Nat :=
  match f.shape with
  | .string _ | .cString _ => f.type.align
  | _ => f.type.width

end Field

/-- The place of a field in the buffer. -/
structure Slot where
  /-- The name of the field. -/
  name : String
  /-- Where it begins. -/
  offset : Nat
  /-- The bytes left free before it. -/
  padding : Nat
  /-- The bytes it takes. -/
  width : Nat
  /-- The unit it is aligned to. -/
  align : Nat
deriving DecidableEq, Repr

/-- Where a slot ends. -/
def Slot.stop (s : Slot) : Nat := s.offset + s.width

/-- The places of all fields of a record. -/
structure Layout where
  /-- The name of the record. -/
  record : String
  /-- The slots, in the order of the fields. -/
  slots : List Slot
  /-- The bytes of the whole buffer. -/
  bufferSize : Nat
deriving DecidableEq, Repr

/-- The slot of a field when everything before `cursor` is taken. -/
def Field.slotAt? (f : Field) (cursor : Nat) : Option Slot := do
  let width ← f.width?
  let padding := paddingTo cursor f.alignUnit
  let offset ← Size.add? cursor padding
  let _ ← Size.add? offset width
  return { name := f.name, offset, padding, width, align := f.alignUnit }

/-- The slots of fields when everything before `cursor` is taken, and where the
last one ends. The error is that of the first field without a slot. -/
def placeFields (record : String) (cursor : Nat) :
    List Field → Except SchemaError (List Slot × Nat)
  | [] => .ok ([], cursor)
  | f :: rest =>
    match f.slotAt? cursor with
    | none => .error ⟨f.line, .recordTooLarge record⟩
    | some slot => do
      let (slots, stop) ← placeFields record slot.stop rest
      return (slot :: slots, stop)

namespace Record

/-- The layout of a record. -/
def layout (r : Record) : Except SchemaError Layout := do
  let (slots, stop) ← placeFields r.name 0 r.fields
  return { record := r.name, slots, bufferSize := stop }

end Record

end FlatRecord
