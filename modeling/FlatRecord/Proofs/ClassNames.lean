import FlatRecord.Proofs.ClassText
import FlatRecord.Proofs.Compilation

/-!
# The names of a class

A class declares names (`ClassDecl.declaredNames`): its own, one for the functions of
each field, one for the constant of each field, and that of the size of its buffer.
And it relies on names that are declared elsewhere (`Record.reliedOn`): those that come
with its base class, and the scalar types of its fields. The check of names in a schema
is there to keep the first apart from each other and from the second. This is how far
it goes.

* Declared names are never keywords, and they are different but for one case that the
  check does not see: a class may be named like the constant of one of its own fields
  (`names_declared_once_iff`).
* No constant has a name that is relied on. A record or a field has one only when it
  is named `size_t`, which is not among the names taken, or like an integer type of
  one of its fields (`relied_names_taken_iff`).

That these are all the names a class relies on can be told from its text: an
identifier in it is a keyword, or declared there, or the name of a parameter, or one
that stands behind `std::` or a period, or it is relied on.
-/

namespace FlatRecord

/-! ## Declared names -/

namespace ClassDecl

/-- The names of the members of a class, one for the functions of each field. -/
def memberNames (c : ClassDecl) : List String :=
  c.accessors.map (·.getter.name) ++ c.constants.map (·.name) ++ ["buffer_size"]

/-- The names that a class declares, its own first. -/
def declaredNames (c : ClassDecl) : List String := c.name :: c.memberNames

variable {r : Record} {layout : Layout}

theorem memberNames_ofRecord
    (hnames : layout.slots.map Slot.name = r.fields.map Field.name) (allMutable : Bool) :
    (ofRecord r layout allMutable).memberNames
      = r.fields.map Field.name ++ r.fields.map (offsetConstant ·.name) ++ ["buffer_size"] := by
  have hconstants : (layout.slots.map Slot.constant).map (·.name)
      = r.fields.map (offsetConstant ·.name) := by
    rw [List.map_map]
    show layout.slots.map (offsetConstant ∘ Slot.name) = r.fields.map (offsetConstant ∘ Field.name)
    rw [← List.map_map, hnames, List.map_map]
  have haccessors : (r.fields.map (Field.accessor · allMutable)).map (·.getter.name)
      = r.fields.map Field.name := by
    rw [List.map_map]
    rfl
  unfold memberNames ofRecord
  dsimp only
  rw [hconstants, haccessors]

/-- The functions of a field have one name. -/
theorem setter_name_ofRecord (allMutable : Bool) :
    ∀ a ∈ (ofRecord r layout allMutable).accessors, ∀ s ∈ a.setter, s.name = a.getter.name := by
  intro a ha s hs
  obtain ⟨f, -, rfl⟩ := List.mem_map.1 ha
  obtain rfl := f.eq_setter_of_mem hs
  rfl

end ClassDecl

/-- No constant has a name that does not begin like one. -/
theorem offsetConstant_not_mem {names : List String}
    (h : ∀ n ∈ names, "offset_".toList.isPrefixOf n.toList = false) (field : String) :
    offsetConstant field ∉ names := by
  intro hmem
  have hprefix : "offset_".toList <+: (offsetConstant field).toList :=
    ⟨field.toList, String.toList_append.symm⟩
  exact (List.isPrefixOf_iff_prefix.not.1 (Bool.eq_false_iff.1 (h _ hmem))) hprefix

/-- No constant has a name that is taken. -/
theorem isReserved_offsetConstant (field : String) : isReserved (offsetConstant field) = false := by
  have hfree : ∀ n ∈ runtimeNames ++ keywords,
      "offset_".toList.isPrefixOf n.toList = false := by
    decide +kernel
  have hnot := offsetConstant_not_mem hfree field
  rw [List.mem_append, not_or] at hnot
  exact isReserved_eq_false_iff.2 hnot

namespace Record

variable {r : Record}

/-- The members of a class have different names. -/
theorem NamesFree.nodup_members (h : r.NamesFree) :
    (r.fields.map Field.name ++ r.fields.map (offsetConstant ·.name)
      ++ ["buffer_size"]).Nodup := by
  have hsize : "buffer_size" ∈ runtimeNames := List.mem_cons_self
  rw [List.nodup_append', List.nodup_append']
  refine ⟨⟨h.nodup, h.nodup_constants, ?apart⟩, List.nodup_singleton _, ?size⟩
  case apart =>
    intro n hn hconstant
    obtain ⟨f, hf, rfl⟩ := List.mem_map.1 hn
    have hfree := (h.fields f hf).1
    rw [hasOffsetConstant_iff.2 hconstant] at hfree
    cases hfree
  case size =>
    rw [List.disjoint_singleton, List.mem_append]
    rintro (hn | hn)
    · obtain ⟨f, hf, heq⟩ := List.mem_map.1 hn
      exact (isReserved_eq_false_iff.1 (h.fields f hf).2.1).1 (heq ▸ hsize)
    · obtain ⟨f, -, heq⟩ := List.mem_map.1 hn
      exact (isReserved_eq_false_iff.1 (isReserved_offsetConstant f.name)).1 (heq ▸ hsize)

/-- The name of a record is that of a member only when it is that of a constant. -/
theorem NamesFree.name_mem_members_iff (h : r.NamesFree) :
    r.name ∈ r.fields.map Field.name ++ r.fields.map (offsetConstant ·.name) ++ ["buffer_size"]
      ↔ r.hasOffsetConstant r.name = true := by
  rw [List.mem_append, List.mem_append, hasOffsetConstant_iff]
  constructor
  · rintro ((hn | hn) | hn)
    · obtain ⟨f, hf, heq⟩ := List.mem_map.1 hn
      exact absurd heq (h.fields f hf).2.2
    · exact hn
    · refine absurd ?_ (isReserved_eq_false_iff.1 h.record).1
      rw [List.mem_singleton.1 hn]
      exact List.mem_cons_self
  · exact fun hn => .inl (.inr hn)

/-- No name of a record is a keyword. -/
theorem NamesFree.not_keyword (h : r.NamesFree) :
    ∀ n ∈ r.name :: (r.fields.map Field.name ++ r.fields.map (offsetConstant ·.name)
      ++ ["buffer_size"]), n ∉ keywords := by
  have hfree : ∀ {n : String}, isReserved n = false → n ∉ keywords := fun hn =>
    (isReserved_eq_false_iff.1 hn).2
  simp only [List.forall_mem_cons, List.forall_mem_append, List.forall_mem_map]
  exact ⟨hfree h.record, ⟨fun f hf => hfree (h.fields f hf).2.1,
    fun f _ => hfree (isReserved_offsetConstant f.name)⟩, by decide +kernel, nofun⟩

end Record

/-- **What a file declares**, and whether it is declared once. -/
structure HeaderFile.Declares (file : HeaderFile) (r : Record) (options : Options) : Prop where
  /-- The source is that of the record's class. -/
  source : file.source = (r.header file.layout options).render
  /-- The class declares its own name, those of the fields and of their constants, and
  that of the size of the buffer. -/
  names : (r.header file.layout options).body.declaredNames
    = r.name :: (r.fields.map Field.name ++ r.fields.map (offsetConstant ·.name)
      ++ ["buffer_size"])
  /-- A setter has the name of its getter. -/
  setters : ∀ a ∈ (r.header file.layout options).body.accessors, ∀ s ∈ a.setter,
    s.name = a.getter.name
  /-- No name is a keyword. -/
  not_keyword : ∀ n ∈ (r.header file.layout options).body.declaredNames, n ∉ keywords
  /-- The members of the class have different names. -/
  members : (r.header file.layout options).body.memberNames.Nodup
  /-- All names are different unless the class is named like the constant of a field. -/
  once_iff : (r.header file.layout options).body.declaredNames.Nodup
    ↔ r.hasOffsetConstant r.name = false

/-- **The names of a class are declared once** unless the class is named like the
constant of one of its fields. Whatever compiles, and whatever the options: this is
the only way for two of them to meet, and none of them is a keyword. -/
theorem names_declared_once_iff {text : String} {options : Options} {c : Compilation}
    (h : compile text options = .ok c) :
    List.Forall₂ (fun r file => file.Declares r options) c.schema.records c.files := by
  refine (compiled_files h).imp fun r file hfile => ?_
  have hfree := hfile.namesFree
  have hmembers := ClassDecl.memberNames_ofRecord hfile.names options.allMutable
  have hdeclared : (r.header file.layout options).body.declaredNames
      = r.name :: (r.fields.map Field.name ++ r.fields.map (offsetConstant ·.name)
        ++ ["buffer_size"]) :=
    congrArg (r.name :: ·) hmembers
  refine ⟨hfile.source, hdeclared, ClassDecl.setter_name_ofRecord _, ?_, ?_, ?_⟩
  · rw [hdeclared]
    exact hfree.not_keyword
  · rw [show (r.header file.layout options).body.memberNames = _ from hmembers]
    exact hfree.nodup_members
  · rw [hdeclared, List.nodup_cons, hfree.name_mem_members_iff, Bool.not_eq_true]
    exact and_iff_left hfree.nodup_members

theorem names_declared_of_padded :
    ∃ c, compile "P:\n  a u8\n  b u32 mut\n" {} = .ok c
      ∧ List.Forall₂ (fun r file => file.Declares r {}) c.schema.records c.files := by
  obtain ⟨c, hc, -⟩ : ∃ c, compile "P:\n  a u8\n  b u32 mut\n" {} = .ok c ∧ c.files.length = 1 :=
    exists_compile_eq_ok (by decide +kernel)
  exact ⟨c, hc, names_declared_once_iff hc⟩

/-- A class named like the constant of its field compiles. -/
theorem named_like_constant_compiles :
    ∃ c, compile "offset_x:\n  x u8\n" {} = .ok c
      ∧ ∃ p ∈ c.schema.records.zip c.files,
        ¬ (p.1.header p.2.layout {}).body.declaredNames.Nodup :=
  exists_compile_eq_ok (by decide +kernel)

/-! ## Names relied on -/

/-- The names that come with the base class. -/
def inheritedNames : List String :=
  ["Record", "size_t", "alloc", "assign_buffer", "buffer_at", "buffer_at_cstr", "buffer_at_str"]

/-- The names of the parameters of the members that every class has. -/
def parameterNames : List String := ["istr", "read_size", "buffer", "buffer_size", "other"]

/-- The names on either side of a `::` and behind a period, short of those that a class
declares or has from its base class. -/
def qualifiedNames : List String :=
  ["std", "istream", "move", "array", "optional", "string", "string_view", "c_str"]

/-- The integer types of a given width. -/
def integerNames : List String :=
  ["int8_t", "int16_t", "int32_t", "int64_t", "uint8_t", "uint16_t", "uint32_t", "uint64_t"]

/-- The spellings of a scalar type that are identifiers. -/
def ScalarType.names (t : ScalarType) : List String :=
  [t.parameterForm, t.resultForm].filter (Text.isIdentifier ·.toList)

/-- **The names that a class relies on**: those that come with its base class, and the
types of its fields as far as they are identifiers. -/
def Record.reliedOn (r : Record) : List String :=
  inheritedNames ++ r.fields.flatMap (·.type.names)

/-- The names of the scalar types are the integer types and keywords. -/
theorem ScalarType.mem_names {t : ScalarType} {n : String} (ht : t ∈ catalog) (hn : n ∈ t.names) :
    n ∈ keywords ∨ n ∈ integerNames ∧ t.parameterForm = n := by
  have hnames : ∀ t ∈ catalog, ∀ n ∈ t.names,
      n ∈ keywords ∨ n ∈ integerNames ∧ t.parameterForm = n := by
    decide +kernel
  exact hnames t ht n hn

/-- No constant has the name of something that a class relies on. -/
theorem Record.offsetConstant_not_mem_reliedOn {r : Record} (h : r.WellFormed) (field : String) :
    offsetConstant field ∉ r.reliedOn := by
  refine offsetConstant_not_mem ?_ field
  have hinherited : ∀ n ∈ inheritedNames, "offset_".toList.isPrefixOf n.toList = false := by
    decide +kernel
  have htypes : ∀ t ∈ ScalarType.catalog, ∀ n ∈ t.names,
      "offset_".toList.isPrefixOf n.toList = false := by
    decide +kernel
  rw [Record.reliedOn, List.forall_mem_append]
  refine ⟨hinherited, fun n hn => ?_⟩
  obtain ⟨f, hf, hn⟩ := List.mem_flatMap.1 hn
  exact htypes f.type (h.fields f hf).type n hn

/-- **A free name is relied on** when it is `size_t` or an integer type of a field. -/
theorem Record.mem_reliedOn_iff {r : Record} {n : String} (h : r.WellFormed)
    (hfree : isReserved n = false) :
    n ∈ r.reliedOn ↔
      n = "size_t" ∨ n ∈ integerNames ∧ ∃ f ∈ r.fields, f.type.parameterForm = n := by
  obtain ⟨hruntime, hkeyword⟩ := isReserved_eq_false_iff.1 hfree
  have hinherited : ∀ m ∈ inheritedNames, m ∈ runtimeNames ∨ m = "size_t" := by
    decide +kernel
  have hinteger : ∀ m ∈ integerNames, Text.isIdentifier m.toList = true := by
    decide +kernel
  rw [Record.reliedOn, List.mem_append, List.mem_flatMap]
  constructor
  · rintro (hn | ⟨f, hf, hn⟩)
    · exact .inl ((hinherited n hn).resolve_left hruntime)
    · obtain ⟨hn, hform⟩ := (ScalarType.mem_names (h.fields f hf).type hn).resolve_left hkeyword
      exact .inr ⟨hn, f, hf, hform⟩
  · rintro (rfl | ⟨hn, f, hf, rfl⟩)
    · exact .inl (List.mem_cons_of_mem _ List.mem_cons_self)
    · exact .inr ⟨f, hf, List.mem_filter.2 ⟨List.mem_cons_self, hinteger _ hn⟩⟩

/-- A name that a record brings along is declared in its class or relied on, if it is an
identifier at all. -/
theorem Record.mem_vocabulary {r : Record} {n : String} (hn : n ∈ r.vocabulary)
    (hword : Text.isIdentifier n.toList = true) :
    n ∈ r.name :: (r.fields.map Field.name ++ r.fields.map (offsetConstant ·.name)
        ++ ["buffer_size"])
      ∨ n ∈ r.reliedOn := by
  rcases List.mem_cons.1 hn with rfl | hn
  · exact .inl List.mem_cons_self
  obtain ⟨f, hf, hn⟩ := List.mem_flatMap.1 hn
  have hspelling : n ∈ [f.type.parameterForm, f.type.resultForm] → n ∈ r.reliedOn := fun hn =>
    List.mem_append_right _ (List.mem_flatMap.2 ⟨f, hf, List.mem_filter.2 ⟨hn, hword⟩⟩)
  rcases List.mem_cons.1 hn with rfl | hn
  · exact .inl (List.mem_cons_of_mem _ (List.mem_append_left _ (List.mem_append_left _
      (List.mem_map_of_mem hf))))
  rcases List.mem_cons.1 hn with rfl | hn
  · exact .inl (List.mem_cons_of_mem _ (List.mem_append_left _ (List.mem_append_right _
      (List.mem_map.2 ⟨f, hf, rfl⟩))))
  · exact .inr (hspelling hn)

/-- **The identifiers in the lines of a class**, short of keywords, are those that it
declares, parameters, those next to `::` or a period, and those that it relies on. -/
theorem Record.identifiers_uncommented {r : Record} {layout : Layout} (h : r.WellFormed)
    (hnames : layout.slots.map Slot.name = r.fields.map Field.name) (allMutable : Bool) :
    ∀ l ∈ (ClassDecl.ofRecord r layout allMutable).uncommented,
      ∀ w ∈ Text.identifiers l.toList, String.ofList w ∈
        keywords ++ parameterNames ++ qualifiedNames
          ++ (ClassDecl.ofRecord r layout allMutable).declaredNames ++ r.reliedOn := by
  have hsource : ∀ n ∈ sourceWords,
      n ∈ keywords ++ parameterNames ++ qualifiedNames ++ inheritedNames := by
    decide +kernel
  intro l hl w hw
  rcases (madeOf_uncommented h hnames allMutable l hl).known w hw with hmem | hmem
  · rcases List.mem_append.1 (hsource _ hmem) with hmem | hmem
    · exact List.mem_append_left _ (List.mem_append_left _ hmem)
    · exact List.mem_append_right _ (List.mem_append_left _ hmem)
  · have hword : Text.isIdentifier (String.ofList w).toList = true := by
      rw [String.toList_ofList]
      exact (List.mem_filter.1 hw).2
    rcases mem_vocabulary hmem hword with hmem | hmem
    · rw [← ClassDecl.memberNames_ofRecord hnames allMutable] at hmem
      exact List.mem_append_left _ (List.mem_append_right _ hmem)
    · exact List.mem_append_right _ hmem

/-- **What a file relies on**, and which of it is declared by its class. -/
structure HeaderFile.Relies (file : HeaderFile) (r : Record) (options : Options) : Prop where
  /-- The source is that of the record's class. -/
  source : file.source = (r.header file.layout options).render
  /-- An identifier in a line of the class is a keyword, a parameter, next to `::` or a
  period, declared by the class or relied on. -/
  identifiers : ∀ l ∈ (r.header file.layout options).body.uncommented,
    ∀ w ∈ Text.identifiers l.toList, String.ofList w ∈
      keywords ++ parameterNames ++ qualifiedNames
        ++ (r.header file.layout options).body.declaredNames ++ r.reliedOn
  /-- No constant has a name that is relied on. -/
  constants : ∀ k ∈ (r.header file.layout options).body.constants, k.name ∉ r.reliedOn
  /-- The record or a field has one when it is named `size_t` or like an integer type of
  a field. -/
  taken_iff : ∀ n ∈ r.name :: r.fields.map Field.name, n ∈ r.reliedOn ↔
    n = "size_t" ∨ n ∈ integerNames ∧ ∃ f ∈ r.fields, f.type.parameterForm = n

/-- **What a class relies on is not hidden by its own names** unless the record or a
field is named `size_t` or like an integer type that the class uses. Whatever compiles,
and whatever the options: no other name of its base class, no type and no constant is
concerned. -/
theorem relied_names_taken_iff {text : String} {options : Options} {c : Compilation}
    (h : compile text options = .ok c) :
    List.Forall₂ (fun r file => file.Relies r options) c.schema.records c.files := by
  refine (compiled_files h).imp fun r file hfile => ?_
  have hwf := hfile.wellFormed
  have hfree := hfile.namesFree
  refine ⟨hfile.source, Record.identifiers_uncommented hwf hfile.names _, fun k hk => ?_, ?_⟩
  · obtain ⟨s, -, rfl⟩ := List.mem_map.1 hk
    exact Record.offsetConstant_not_mem_reliedOn hwf s.name
  · rw [List.forall_mem_cons, List.forall_mem_map]
    exact ⟨Record.mem_reliedOn_iff hwf hfree.record,
      fun f hf => Record.mem_reliedOn_iff hwf (hfree.fields f hf).2.1⟩

theorem relied_names_of_sized :
    ∃ c, compile "P:\n  a u8\n  b u32 mut\n" {} = .ok c
      ∧ List.Forall₂ (fun r file => file.Relies r {}) c.schema.records c.files := by
  obtain ⟨c, hc, -⟩ : ∃ c, compile "P:\n  a u8\n  b u32 mut\n" {} = .ok c ∧ c.files.length = 1 :=
    exists_compile_eq_ok (by decide +kernel)
  exact ⟨c, hc, relied_names_taken_iff hc⟩

/-- A field named like the type of sizes compiles. -/
theorem named_size_t_compiles :
    ∃ c, compile "A:\n  size_t u8\n" {} = .ok c
      ∧ ∃ r ∈ c.schema.records, ∃ f ∈ r.fields, f.name ∈ r.reliedOn :=
  exists_compile_eq_ok (by decide +kernel)

end FlatRecord
