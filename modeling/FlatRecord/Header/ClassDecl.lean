import FlatRecord.Header.Member

/-!
# The class of a record

A record becomes a class over a buffer: a constructor from the values of all
fields, constructors from a stream and from bytes, copying and moving, the
accessors of each field, and at its end the layout, as constants. The class is
a value made of the record and a layout, and its source a list of lines.
-/

namespace FlatRecord

/-- The class generated for a record. -/
structure ClassDecl where
  /-- The name of the class. -/
  name : String
  /-- The comments of the record. -/
  docs : List String
  /-- The parameters of the constructor from values. -/
  parameters : List Parameter
  /-- The statements of that constructor. -/
  stores : List Store
  /-- The member functions of the fields. -/
  accessors : List Accessor
  /-- The constants of the layout. -/
  constants : List OffsetConstant
  /-- The size of the buffer. -/
  bufferSize : Nat
deriving DecidableEq, Repr

namespace ClassDecl

/-- The class of a record under a layout. -/
def ofRecord (r : Record) (layout : Layout) (allMutable : Bool) : ClassDecl where
  name := r.name
  docs := r.docs
  parameters := r.fields.map Field.parameter
  stores := r.fields.map Field.store
  accessors := r.fields.map (Field.accessor · allMutable)
  constants := layout.slots.map Slot.constant
  bufferSize := layout.bufferSize

/-- The constructor from the values of all fields. -/
def valueConstructor (c : ClassDecl) : List String :=
  ["    " ++ c.name ++ "(" ++ ", ".intercalate (c.parameters.map Parameter.render) ++ ")",
   "        : Record\x7b\x7d",
   "    \x7b",
   "        alloc(buffer_size);"]
    ++ c.stores.map (fun s => "        " ++ s.render)
    ++ ["    \x7d"]

/-- The constructors, destructor and assignments that every class has. -/
def commonMembers (name : String) : List String :=
  ["    " ++ name ++ "(std::istream &istr, const size_t read_size) "
      ++ ": Record\x7bistr, read_size, buffer_size\x7d \x7b\x7d",
   "    " ++ name ++ "(const unsigned char *buffer, const size_t buffer_size) "
      ++ ": Record\x7bbuffer, buffer_size, " ++ name ++ "::buffer_size\x7d \x7b\x7d",
   "    " ++ name ++ "(const " ++ name ++ " &other) : Record\x7bother\x7d \x7b\x7d",
   "    " ++ name ++ "(" ++ name ++ " &&other) noexcept "
      ++ ": Record\x7bstd::move(other)\x7d \x7b\x7d",
   "    ~" ++ name ++ "() noexcept \x7b\x7d",
   "    " ++ name ++ " &operator=(const " ++ name ++ " &other)",
   "    \x7b",
   "        Record::operator=(other);",
   "        return *this;",
   "    \x7d",
   "    " ++ name ++ " &operator=(" ++ name ++ " &&other) noexcept",
   "    \x7b",
   "        Record::operator=(std::move(other));",
   "        return *this;",
   "    \x7d",
   ""]

/-- The constants of the layout, the size of the buffer last. -/
def layoutLines (c : ClassDecl) : List String :=
  c.constants.map OffsetConstant.render
    ++ ["    static constexpr size_t buffer_size = " ++ c.bufferSize.repr ++ ";"]

/-- The lines of the class, its comments first. -/
def lines (c : ClassDecl) : List String :=
  docBlock "" [] c.docs
    ++ ["class " ++ c.name ++ " : public Record", "\x7b", "public:"]
    ++ c.valueConstructor
    ++ commonMembers c.name
    ++ c.accessors.flatMap Accessor.lines
    ++ ["", "private:"]
    ++ c.layoutLines
    ++ ["\x7d;"]

end ClassDecl

end FlatRecord
