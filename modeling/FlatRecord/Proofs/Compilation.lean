import FlatRecord.Compile
import FlatRecord.Proofs.Placement
import FlatRecord.Proofs.WellFormed
import Mathlib.Data.List.Forall2

/-!
# What compiles

A text compiles when it can be read, its names can stand together and each of its
records has a layout, and then there is one file for each record, in order:
`compile_eq_ok_iff`. The names can stand together when none of them is at fault,
`Record.checkFields_eq_ok_iff` and `Schema.checkRecords_eq_ok_iff`.
-/

namespace FlatRecord

/-! ## Names -/

/-- What holds of each member of a list and the members before it holds of the first
one and then of the others. -/
theorem forall_split_cons {α : Type} {P : List α → α → Prop} {earlier : List α} {a : α}
    {rest : List α} :
    (∀ before x after, a :: rest = before ++ x :: after → P (earlier ++ before) x)
      ↔ P earlier a ∧ ∀ before x after, rest = before ++ x :: after →
          P (earlier ++ [a] ++ before) x := by
  constructor
  · intro h
    refine ⟨List.append_nil earlier ▸ h [] a rest rfl, ?_⟩
    rintro before x after rfl
    rw [← List.append_cons]
    exact h (a :: before) x after rfl
  · rintro ⟨ha, h⟩ before x after hsplit
    cases before with
    | nil =>
      obtain ⟨rfl, -⟩ := List.cons.inj hsplit
      rwa [List.append_nil]
    | cons b before =>
      obtain ⟨rfl, rfl⟩ := List.cons.inj hsplit
      rw [List.append_cons]
      exact h before x after rfl

/-- Elements differ in something when each differs in it from those before it. -/
theorem nodup_map_of_split {α β : Type} {f : α → β} {l : List α}
    (h : ∀ before x after, l = before ++ x :: after → ∀ y ∈ before, f y ≠ f x) :
    (l.map f).Nodup := by
  rw [List.Nodup, List.pairwise_map, List.pairwise_iff_forall_sublist]
  intro y x hsub
  -- the later of the two has the earlier one among those before it
  obtain ⟨before, after, hsplit, hbefore, hafter⟩ := List.cons_sublist_iff.1 hsub
  obtain ⟨left, right, hright⟩ := List.append_of_mem (List.singleton_sublist.1 hafter)
  refine h (before ++ left) x right ?_ y (List.mem_append_left _ hbefore)
  rw [hsplit, hright, List.append_assoc]

/-- A name is taken when it is one of the base class or a keyword. -/
theorem isReserved_iff {name : String} :
    isReserved name = true ↔ name ∈ runtimeNames ∨ name ∈ keywords := by
  simp [isReserved]

theorem isReserved_eq_false_iff {name : String} :
    isReserved name = false ↔ name ∉ runtimeNames ∧ name ∉ keywords := by
  rw [← Bool.not_eq_true, isReserved_iff, not_or]

namespace Record

theorem hasOffsetConstant_iff {r : Record} {name : String} :
    r.hasOffsetConstant name = true ↔ name ∈ r.fields.map (offsetConstant ·.name) := by
  simp [hasOffsetConstant]

/-- Names of fields are accepted when none is at fault among those before it. -/
theorem checkFields_eq_ok_iff {r : Record} {earlier fields : List Field} :
    r.checkFields earlier fields = .ok () ↔
      ∀ before f after, fields = before ++ f :: after →
        r.fieldViolation? (earlier ++ before) f = none := by
  induction fields generalizing earlier with
  | nil => exact ⟨fun _ before f after h => by simp at h, fun _ => rfl⟩
  | cons f rest ih =>
    rw [checkFields,
      forall_split_cons (P := fun earlier f => r.fieldViolation? earlier f = none), ← ih]
    cases r.fieldViolation? earlier f <;> simp

/-- The name of a field is at fault when it is that of a constant, taken, that of the
record, or declared before. -/
theorem fieldViolation?_eq_none_iff {r : Record} {earlier : List Field} {f : Field} :
    r.fieldViolation? earlier f = none ↔
      (r.hasOffsetConstant f.name = false ∧ isReserved f.name = false ∧ f.name ≠ r.name)
        ∧ earlier.any (·.name == f.name) = false := by
  unfold fieldViolation?
  constructor
  · intro h
    split at h
    · cases h
    · rename_i hfree
      split at h
      · cases h
      · rename_i hearlier
        simpa [and_assoc] using And.intro hfree hearlier
  · rintro ⟨⟨hconstant, hreserved, hrecord⟩, hearlier⟩
    rw [hconstant, hreserved, beq_eq_false_iff_ne.2 hrecord, hearlier]
    rfl

/-- **The fields of an accepted record have different names.** -/
theorem nodup_names_of_checkFields {r : Record} (h : r.checkFields [] r.fields = .ok ()) :
    (r.fields.map Field.name).Nodup := by
  refine nodup_map_of_split fun before g after hsplit f hf heq => ?_
  have hearlier :=
    (fieldViolation?_eq_none_iff.1 (checkFields_eq_ok_iff.1 h before g after hsplit)).2
  have hany : ([] ++ before).any (·.name == g.name) = true :=
    List.any_eq_true.2 ⟨f, hf, beq_iff_eq.2 heq⟩
  exact Bool.false_ne_true (hearlier.symm.trans hany)

end Record

/-- Names of records are accepted when none is at fault among those before it, nor
a field of one. -/
theorem Schema.checkRecords_eq_ok_iff {earlier records : List Record} :
    Schema.checkRecords earlier records = .ok () ↔
      ∀ before r after, records = before ++ r :: after →
        r.violation? (earlier ++ before) = none ∧ r.checkFields [] r.fields = .ok () := by
  induction records generalizing earlier with
  | nil => exact ⟨fun _ before f after h => by simp at h, fun _ => rfl⟩
  | cons r rest ih =>
    rw [Schema.checkRecords, forall_split_cons (P := fun (earlier : List Record) (r : Record) =>
      r.violation? earlier = none ∧ r.checkFields [] r.fields = .ok ()), ← ih]
    cases r.violation? earlier with
    | some v => simp
    | none =>
      cases hfields : r.checkFields [] r.fields <;> simp [bind_eq_ok]

/-- The name of a record is at fault when it is taken or declared before. -/
theorem Record.violation?_eq_none_iff {r : Record} {earlier : List Record} :
    r.violation? earlier = none ↔
      isReserved r.name = false ∧ earlier.any (·.name == r.name) = false := by
  unfold violation?
  constructor
  · intro h
    split at h
    · cases h
    · rename_i hfree
      split at h
      · cases h
      · rename_i hearlier
        exact ⟨Bool.eq_false_iff.2 hfree, Bool.eq_false_iff.2 hearlier⟩
  · rintro ⟨hreserved, hearlier⟩
    rw [hreserved, hearlier]
    rfl

/-- **The names of a record are free**: none of them is taken, no field is named like
another, like the record or like a constant. Of the name of the record itself it is
not said that no constant has it. -/
structure Record.NamesFree (r : Record) : Prop where
  /-- The name of the record is not taken. -/
  record : isReserved r.name = false
  /-- The names of the fields are neither those of constants nor taken nor that of
  the record. -/
  fields : ∀ f ∈ r.fields,
    r.hasOffsetConstant f.name = false ∧ isReserved f.name = false ∧ f.name ≠ r.name
  /-- They are different. -/
  nodup : (r.fields.map Field.name).Nodup

/-- The fields of each record of an accepted schema are accepted. -/
theorem Schema.checkFields_of_checkNames {s : Schema} (h : s.checkNames = .ok ()) :
    ∀ r ∈ s.records, r.checkFields [] r.fields = .ok () := by
  intro r hr
  obtain ⟨before, after, hsplit⟩ := List.append_of_mem hr
  exact (Schema.checkRecords_eq_ok_iff.1 h before r after hsplit).2

/-- **The records of an accepted schema have different names.** -/
theorem Schema.nodup_names_of_checkNames {s : Schema} (h : s.checkNames = .ok ()) :
    (s.records.map Record.name).Nodup := by
  refine nodup_map_of_split fun before r after hsplit q hq heq => ?_
  have hearlier := (Record.violation?_eq_none_iff.1
    (Schema.checkRecords_eq_ok_iff.1 h before r after hsplit).1).2
  have hany : ([] ++ before).any (·.name == r.name) = true :=
    List.any_eq_true.2 ⟨q, hq, beq_iff_eq.2 heq⟩
  exact Bool.false_ne_true (hearlier.symm.trans hany)

/-- **The names of each record of an accepted schema are free.** -/
theorem Schema.namesFree_of_checkNames {s : Schema} (h : s.checkNames = .ok ()) :
    ∀ r ∈ s.records, r.NamesFree := by
  intro r hr
  obtain ⟨before, after, hsplit⟩ := List.append_of_mem hr
  obtain ⟨hrecord, hfields⟩ := Schema.checkRecords_eq_ok_iff.1 h before r after hsplit
  refine ⟨(Record.violation?_eq_none_iff.1 hrecord).1, fun f hf => ?_,
    Record.nodup_names_of_checkFields hfields⟩
  obtain ⟨before, after, hsplit⟩ := List.append_of_mem hf
  exact (Record.fieldViolation?_eq_none_iff.1
    (Record.checkFields_eq_ok_iff.1 hfields before f after hsplit)).1

/-! ## Files -/

/-- A record has a file when it has a layout. -/
theorem Record.headerFile_eq_ok_iff {r : Record} {options : Options} {file : HeaderFile} :
    r.headerFile options = .ok file ↔
      r.layout = .ok file.layout ∧ file.record = r.name
        ∧ file.fileName = r.fileName options
        ∧ file.source = (r.header file.layout options).render := by
  obtain ⟨record, fileName, source, layout⟩ := file
  rw [Record.headerFile, bind_eq_ok]
  constructor
  · rintro ⟨l, hl, h⟩
    obtain ⟨rfl, rfl, rfl, rfl⟩ := HeaderFile.mk.inj (Except.ok.inj h)
    exact ⟨hl, rfl, rfl, rfl⟩
  · rintro ⟨hl, h1, h2, h3⟩
    obtain rfl : record = r.name := h1
    obtain rfl : fileName = r.fileName options := h2
    obtain rfl : source = (r.header layout options).render := h3
    exact ⟨layout, hl, rfl⟩

/-- Records have files, one for each and in order, when each of them has one. -/
theorem Schema.headerFiles_eq_ok_iff {options : Options} {records : List Record}
    {files : List HeaderFile} :
    Schema.headerFiles options records = .ok files ↔
      List.Forall₂ (fun r file => r.headerFile options = .ok file) records files := by
  induction records generalizing files with
  | nil =>
    constructor
    · intro h
      obtain rfl := Except.ok.inj h
      exact .nil
    · rintro ⟨⟩
      rfl
  | cons r rest ih =>
    rw [Schema.headerFiles, bind_eq_ok]
    constructor
    · rintro ⟨file, hfile, h⟩
      obtain ⟨others, hothers, h⟩ := bind_eq_ok.1 h
      obtain rfl := Except.ok.inj h
      exact .cons hfile (ih.1 hothers)
    · rintro (_ | ⟨hfile, hothers⟩)
      exact ⟨_, hfile, bind_eq_ok.2 ⟨_, ih.2 hothers, rfl⟩⟩

/-- A computation gives something with a property when evaluating it finds so. -/
theorem exists_eq_ok {ε α : Type} {x : Except ε α} {P : α → Prop} [DecidablePred P]
    (h : x.toOption.any (fun a => decide (P a)) = true) : ∃ a, x = .ok a ∧ P a := by
  cases x with
  | error e => cases h
  | ok a => exact ⟨a, rfl, of_decide_eq_true h⟩

theorem exists_compile_eq_ok {text : String} {options : Options} {P : Compilation → Prop}
    [DecidablePred P] (h : (compile text options).toOption.any (fun c => decide (P c)) = true) :
    ∃ c, compile text options = .ok c ∧ P c :=
  exists_eq_ok h

/-- **A text compiles** to a schema and files when the schema is what it reads as,
with names that can stand together, and the files are those of its records. -/
theorem compile_eq_ok_iff {text : String} {options : Options} {c : Compilation} :
    compile text options = .ok c ↔
      Schema.read text = .ok c.schema ∧ c.schema.checkNames = .ok ()
        ∧ List.Forall₂ (fun r file => r.headerFile options = .ok file)
          c.schema.records c.files := by
  obtain ⟨schema, files⟩ := c
  rw [compile, bind_eq_ok, ← Schema.headerFiles_eq_ok_iff]
  constructor
  · rintro ⟨s, hs, h⟩
    obtain ⟨fs, hfs, h⟩ := bind_eq_ok.1 h
    obtain ⟨rfl, rfl⟩ := Compilation.mk.inj (Except.ok.inj h)
    obtain ⟨s', hread, h⟩ := bind_eq_ok.1 hs
    obtain ⟨u, hnames, h⟩ := bind_eq_ok.1 h
    obtain rfl := Except.ok.inj h
    exact ⟨hread, hnames, hfs⟩
  · rintro ⟨hread, hnames, hfiles⟩
    refine ⟨schema, bind_eq_ok.2 ⟨schema, hread, bind_eq_ok.2 ⟨(), hnames, rfl⟩⟩, ?_⟩
    exact bind_eq_ok.2 ⟨files, hfiles, rfl⟩

/-- **A text does not compile** when it cannot be read, or a name of it is at fault, or a
record has no file. -/
theorem compile_eq_error_iff {text : String} {options : Options} {e : SchemaError} :
    compile text options = .error e ↔
      Schema.read text = .error e
        ∨ ∃ s, Schema.read text = .ok s
          ∧ (s.checkNames = .error e
            ∨ s.checkNames = .ok () ∧ Schema.headerFiles options s.records = .error e) := by
  rw [compile, bind_eq_error, Schema.readChecked, bind_eq_error]
  constructor
  · rintro ((hread | ⟨s, hread, h⟩) | ⟨s, hs, h⟩)
    · exact .inl hread
    · rcases bind_eq_error.1 h with hnames | ⟨_, -, h⟩
      · exact .inr ⟨s, hread, .inl hnames⟩
      · cases h
    · obtain ⟨s', hread, h'⟩ := bind_eq_ok.1 hs
      obtain ⟨u, hnames, h'⟩ := bind_eq_ok.1 h'
      obtain rfl := Except.ok.inj h'
      rcases bind_eq_error.1 h with hfiles | ⟨_, -, h⟩
      · exact .inr ⟨s', hread, .inr ⟨hnames, hfiles⟩⟩
      · cases h
  · rintro (hread | ⟨s, hread, hnames | ⟨hnames, hfiles⟩⟩)
    · exact .inl (.inl hread)
    · exact .inl (.inr ⟨s, hread, bind_eq_error.2 (.inl hnames)⟩)
    · refine .inr ⟨s, bind_eq_ok.2 ⟨s, hread, bind_eq_ok.2 ⟨(), hnames, rfl⟩⟩, ?_⟩
      exact bind_eq_error.2 (.inl hfiles)

/-- **A file and its record**, in whatever compiles. -/
structure HeaderFile.OfRecord (file : HeaderFile) (r : Record) (options : Options) : Prop where
  /-- The record is well-formed. -/
  wellFormed : r.WellFormed
  /-- Its names are free. -/
  namesFree : r.NamesFree
  /-- The layout is that of the record. -/
  layout : r.layout = .ok file.layout
  /-- The source is that of the record's header. -/
  source : file.source = (r.header file.layout options).render

theorem compiled_files {text : String} {options : Options} {c : Compilation}
    (h : compile text options = .ok c) :
    List.Forall₂ (fun r file => file.OfRecord r options) c.schema.records c.files := by
  obtain ⟨hread, hnames, hfiles⟩ := compile_eq_ok_iff.1 h
  have hwf : c.schema.WellFormed := Schema.wellFormed_of_ofLines hread
  have hgood : ∀ r ∈ c.schema.records, r.WellFormed ∧ r.NamesFree := fun r hr =>
    ⟨hwf r hr, Schema.namesFree_of_checkNames hnames r hr⟩
  refine ((List.forall₂_and_left _ _).2 ⟨hgood, hfiles⟩).imp ?_
  rintro r file ⟨⟨hwf, hfree⟩, hfile⟩
  obtain ⟨hl, -, -, hsource⟩ := Record.headerFile_eq_ok_iff.1 hfile
  exact ⟨hwf, hfree, hl, hsource⟩

/-- The slots of a file are named like the fields of its record. -/
theorem HeaderFile.OfRecord.names {file : HeaderFile} {r : Record} {options : Options}
    (h : file.OfRecord r options) :
    file.layout.slots.map Slot.name = r.fields.map Field.name :=
  Record.map_name_of_layout_eq_ok (fun f hf => (h.wellFormed.fields f hf).type) h.layout

end FlatRecord
