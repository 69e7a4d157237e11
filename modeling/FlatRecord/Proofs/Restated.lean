import FlatRecord.Proofs.Compilation

/-!
# Declarations restated

The same declarations can stand on other lines, and a field can be marked mutable or not.
Neither has a part in which names can stand together or in where fields are placed. So what
is wrong with restated declarations is what was wrong with them, reported at the line that
they are now on (`Schema.checkNames_restated`, `Schema.headerFiles_restated`), and lines
leave no trace in a header. A mark does, as the setter that it gives: it is the same header
when every field has a setter where it had one, be it by its mark or by the options.
-/

namespace FlatRecord

/-- A field on another line, with another mark. -/
def Field.restated (line : Nat → Nat) (mark : Bool → Bool) (f : Field) : Field :=
  { f with line := line f.line, mutable := mark f.mutable }

/-- A record on other lines, with other marks on its fields. -/
def Record.restated (line : Nat → Nat) (mark : Bool → Bool) (r : Record) : Record :=
  { r with line := line r.line, fields := r.fields.map (Field.restated line mark) }

/-- A schema on other lines, with other marks on its fields. -/
def Schema.restated (line : Nat → Nat) (mark : Bool → Bool) (s : Schema) : Schema :=
  ⟨s.records.map (Record.restated line mark)⟩

/-- An error on another line. -/
def SchemaError.restated (line : Nat → Nat) (e : SchemaError) : SchemaError :=
  { e with line := line e.line }

variable (line : Nat → Nat) (mark : Bool → Bool)

/-! ## Names -/

namespace Record

theorem hasOffsetConstant_restated (r : Record) (name : String) :
    (r.restated line mark).hasOffsetConstant name = r.hasOffsetConstant name := by
  show (r.fields.map (Field.restated line mark)).any _ = _
  rw [List.any_map]
  rfl

theorem fieldViolation?_restated (r : Record) (earlier : List Field) (f : Field) :
    (r.restated line mark).fieldViolation? (earlier.map (Field.restated line mark))
        (f.restated line mark)
      = r.fieldViolation? earlier f := by
  have hearlier : (earlier.map (Field.restated line mark)).any (·.name == f.name)
      = earlier.any (·.name == f.name) := List.any_map
  unfold fieldViolation?
  rw [show (f.restated line mark).name = f.name from rfl, hasOffsetConstant_restated, hearlier]
  rfl

/-- The names of restated fields are at fault where they were. -/
theorem checkFields_restated (r : Record) (earlier fields : List Field) :
    (r.restated line mark).checkFields (earlier.map (Field.restated line mark))
        (fields.map (Field.restated line mark))
      = (r.checkFields earlier fields).mapError (SchemaError.restated line) := by
  induction fields generalizing earlier with
  | nil => rfl
  | cons f rest ih =>
    rw [List.map_cons, checkFields, fieldViolation?_restated, checkFields]
    cases r.fieldViolation? earlier f with
    | some v => rfl
    | none =>
      have hmore := ih (earlier ++ [f])
      rwa [List.map_append] at hmore

theorem violation?_restated (earlier : List Record) (r : Record) :
    (r.restated line mark).violation? (earlier.map (Record.restated line mark))
      = r.violation? earlier := by
  have hearlier : (earlier.map (Record.restated line mark)).any (·.name == r.name)
      = earlier.any (·.name == r.name) := List.any_map
  unfold violation?
  rw [show (r.restated line mark).name = r.name from rfl, hearlier]

end Record

namespace Schema

theorem checkRecords_restated (earlier records : List Record) :
    checkRecords (earlier.map (Record.restated line mark))
        (records.map (Record.restated line mark))
      = (checkRecords earlier records).mapError (SchemaError.restated line) := by
  induction records generalizing earlier with
  | nil => rfl
  | cons r rest ih =>
    rw [List.map_cons, checkRecords, Record.violation?_restated, checkRecords]
    cases r.violation? earlier with
    | some v => rfl
    | none =>
      have hfields := Record.checkFields_restated line mark r [] r.fields
      have hmore := ih (earlier ++ [r])
      rw [List.map_append] at hmore
      show ((r.restated line mark).checkFields [] (r.fields.map (Field.restated line mark))
        >>= fun _ => checkRecords (_ ++ [r].map (Record.restated line mark)) _) = _
      rw [show (r.restated line mark).checkFields [] _ = _ from hfields, hmore]
      cases r.checkFields [] r.fields <;> rfl

/-- **The names of a restated schema are at fault where they were.** -/
theorem checkNames_restated (s : Schema) :
    (s.restated line mark).checkNames = s.checkNames.mapError (SchemaError.restated line) :=
  checkRecords_restated line mark [] s.records

end Schema

/-! ## Headers -/

/-- Restated fields have the slots that they had. -/
theorem placeFields_restated (record : String) (cursor : Nat) (fields : List Field) :
    placeFields record cursor (fields.map (Field.restated line mark))
      = (placeFields record cursor fields).mapError (SchemaError.restated line) := by
  induction fields generalizing cursor with
  | nil => rfl
  | cons f rest ih =>
    rw [List.map_cons, placeFields, placeFields,
      show (f.restated line mark).slotAt? cursor = f.slotAt? cursor from rfl]
    cases f.slotAt? cursor with
    | none => rfl
    | some slot =>
      dsimp only
      rw [ih]
      cases placeFields record slot.stop rest <;> rfl

theorem Record.layout_restated (r : Record) :
    (r.restated line mark).layout = r.layout.mapError (SchemaError.restated line) := by
  unfold layout
  show (placeFields r.name 0 (r.fields.map _) >>= _) = _
  rw [placeFields_restated]
  cases placeFields r.name 0 r.fields <;> rfl

section Header

variable {mark} {options : Options} {allMutable : Bool}
  (h : ∀ m, (mark m || allMutable) = (m || options.allMutable))

include h

/-- A restated record has the header that it had when its fields have setters where they had
them. -/
theorem Record.header_restated (r : Record) (layout : Layout) :
    (r.restated line mark).header layout { options with allMutable }
      = r.header layout options := by
  have haccessor : ∀ f : Field,
      (f.restated line mark).accessor allMutable = f.accessor options.allMutable := by
    intro f
    have hsetter : (f.restated line mark).hasSetter allMutable = f.hasSetter options.allMutable :=
      h f.mutable
    unfold Field.accessor
    rw [hsetter]
    rfl
  have hbody : ClassDecl.ofRecord (r.restated line mark) layout allMutable
      = ClassDecl.ofRecord r layout options.allMutable := by
    unfold ClassDecl.ofRecord restated
    simp only [List.map_map, Function.comp_def, haccessor]
    rfl
  unfold header
  dsimp only
  rw [hbody]
  rfl

theorem Record.headerFile_restated (r : Record) :
    (r.restated line mark).headerFile { options with allMutable }
      = (r.headerFile options).mapError (SchemaError.restated line) := by
  unfold headerFile
  rw [layout_restated]
  cases r.layout with
  | error e => rfl
  | ok layout =>
    show Except.ok _ = Except.ok _
    rw [header_restated line h]
    rfl

/-- **Restated records have the files that they had**, and if they have none it is for the
reason that there was. -/
theorem Schema.headerFiles_restated (records : List Record) :
    headerFiles { options with allMutable } (records.map (Record.restated line mark))
      = (headerFiles options records).mapError (SchemaError.restated line) := by
  induction records with
  | nil => rfl
  | cons r rest ih =>
    rw [List.map_cons, headerFiles, headerFiles, Record.headerFile_restated line h, ih]
    cases r.headerFile options with
    | error e => rfl
    | ok file => cases headerFiles options rest <;> rfl

/-! ## What compiles -/

/-- The files of a schema whose names can stand together. -/
def Schema.checkedFiles (options : Options) (s : Schema) : Except SchemaError (List HeaderFile) :=
  do
  s.checkNames
  headerFiles options s.records

/-- **A restated schema comes to the files that it came to**, with the error that there was. -/
theorem Schema.checkedFiles_restated (s : Schema) :
    (s.restated line mark).checkedFiles { options with allMutable }
      = (s.checkedFiles options).mapError (SchemaError.restated line) := by
  unfold checkedFiles
  rw [checkNames_restated]
  cases s.checkNames with
  | error e => rfl
  | ok => exact headerFiles_restated line h s.records

end Header

theorem map_files_compile (text : String) (options : Options) :
    (compile text options).map Compilation.files
      = Schema.read text >>= Schema.checkedFiles options := by
  unfold compile Schema.readChecked
  cases Schema.read text with
  | error e => rfl
  | ok s =>
    show Except.map _ ((s.checkNames >>= fun _ => .ok s) >>= _)
      = s.checkNames >>= fun _ => Schema.headerFiles options s.records
    cases s.checkNames with
    | error e => rfl
    | ok =>
      show Except.map _ (Schema.headerFiles options s.records >>= _)
        = Schema.headerFiles options s.records
      cases Schema.headerFiles options s.records <;> rfl

end FlatRecord
