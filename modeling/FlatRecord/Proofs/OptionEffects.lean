import FlatRecord.Proofs.ReadBack
import FlatRecord.Proofs.Restated

/-!
# What options change

An option changes what it is for and nothing else. Whether a text compiles does not depend on
the options, nor do the schema and the layouts that it compiles to (`map_told_compile`).
In a source there are lines in front of the class and behind it that come from the inclusion
guard and the namespace; the lines of the class itself, from its comments to the bracket that
closes it, only depend on whether all fields get setters. When they do, the class has the lines
that it has otherwise, and directly behind each getter of a field that is not mutable those of
its setter (`Record.withSetters_lines`). That is as if all fields were declared mutable
(`Schema.checkedFiles_of_marked`).

Where setters are put in is said on lines alone, by the text of a getter. This is right because
no other line can be taken for the getter of a field, whatever the comments hold: it would be
read as the same call on the buffer (`Record.avoids_of_tells`).
-/

namespace FlatRecord

/-! ## Layouts -/

/-- What a compilation tells of its text: the schema and the layouts of its records. -/
def Compilation.told (c : Compilation) : Schema × List Layout :=
  (c.schema, c.files.map HeaderFile.layout)

theorem Schema.map_layout_headerFiles (options : Options) (records : List Record) :
    (headerFiles options records).map (List.map HeaderFile.layout)
      = records.mapM Record.layout := by
  induction records with
  | nil => rfl
  | cons r rest ih =>
    rw [headerFiles, List.mapM_cons, ← ih, Record.headerFile]
    cases r.layout with
    | error e => rfl
    | ok layout => cases headerFiles options rest <;> rfl

/-- **The schema and the layouts do not come from options**, nor does the error when there is
one. -/
theorem map_told_compile (text : String) (options : Options) :
    (compile text options).map Compilation.told
      = Schema.readChecked text >>= fun s =>
          (s.records.mapM Record.layout).map fun layouts => (s, layouts) := by
  unfold compile
  cases Schema.readChecked text with
  | error e => rfl
  | ok s =>
    show (Schema.headerFiles options s.records >>= fun files => _).map _ = Except.map _ _
    rw [← Schema.map_layout_headerFiles options]
    cases Schema.headerFiles options s.records <;> rfl

/-! ## Getters among lines -/

/-- The call on the buffer that the getter of a field makes. -/
def Field.getterCall (f : Field) : BufferCall :=
  ⟨some f.name, f.bufferFunction, offsetConstant f.name⟩

theorem Field.bufferFunction_ne (f : Field) : f.bufferFunction ≠ "assign_buffer" := by
  unfold bufferFunction
  split <;> decide

theorem Field.lines_accessor (f : Field) (allMutable : Bool) :
    (f.accessor allMutable).lines
      = docBlock memberIndent [] f.docs ++ f.getter.render
        :: if f.hasSetter allMutable then f.setter.lines f.docs else [] := by
  unfold Accessor.lines Getter.lines accessor
  dsimp only
  rw [List.append_assoc]
  split <;> rfl

namespace Record

variable {r : Record} {lines : List String} {places : List Place} {calls : List BufferCall}

/-- No line is the getter of a field. -/
def Avoids (r : Record) (lines : List String) : Prop := ∀ f ∈ r.fields, f.getter.render ∉ lines

/-- **Lines that only store are no getters.** -/
theorem avoids_of_tells (hr : r.WellFormed) (h : Tells lines places calls)
    (hcalls : ∀ call ∈ calls, call.function = "assign_buffer") : r.Avoids lines := by
  intro f hf hmem
  have hcall : f.getterCall ∈ calls := by
    rw [← h.calls]
    exact List.mem_filterMap.2
      ⟨_, List.mem_map_of_mem hmem, Field.readCall?_getter (hr.fields f hf)⟩
  exact f.bufferFunction_ne (hcalls _ hcall)

theorem Avoids.append {lines' : List String} (h : r.Avoids lines) (h' : r.Avoids lines') :
    r.Avoids (lines ++ lines') := by
  intro f hf
  rw [List.mem_append, not_or]
  exact ⟨h f hf, h' f hf⟩

theorem avoids_docBlock (hr : r.WellFormed) (heading docs : List String) :
    r.Avoids (docBlock memberIndent heading docs) :=
  avoids_of_tells hr (tells_docBlock (.inr rfl) heading docs) nofun

theorem avoids_setter (hr : r.WellFormed) {f : Field} (hf : f ∈ r.fields) :
    r.Avoids (f.setter.lines f.docs) :=
  (avoids_docBlock hr ["(Setter)"] f.docs).append
    (avoids_of_tells hr (.of_call (Field.readCall?_setter (hr.fields f hf)))
      (List.forall_mem_singleton.2 rfl))

/-- The getter tells the field. -/
theorem eq_of_getter_render (hr : r.WellFormed) (hfree : r.NamesFree) {f g : Field}
    (hf : f ∈ r.fields) (hg : g ∈ r.fields) (h : f.getter.render = g.getter.render) : f = g := by
  have hcall := Field.readCall?_getter (hr.fields f hf)
  rw [h, Field.readCall?_getter (hr.fields g hg)] at hcall
  have hname : g.name = f.name :=
    Option.some.inj (BufferCall.mk.inj (Option.some.inj hcall)).1
  exact List.inj_on_of_nodup_map hfree.nodup hf hg hname.symm

/-- A getter stands among the functions of its own field only. -/
theorem eq_of_mem_accessor (hr : r.WellFormed) (hfree : r.NamesFree) {f g : Field}
    (hf : f ∈ r.fields) (hg : g ∈ r.fields) {allMutable : Bool}
    (h : f.getter.render ∈ (g.accessor allMutable).lines) : f = g := by
  rw [g.lines_accessor] at h
  rcases List.mem_append.1 h with h | h
  · exact absurd h (avoids_docBlock hr [] g.docs f hf)
  · rcases List.mem_cons.1 h with h | h
    · exact eq_of_getter_render hr hfree hf hg h
    · split at h
      · exact absurd h (avoids_setter hr hg f hf)
      · exact absurd h List.not_mem_nil

theorem count_accessor (hr : r.WellFormed) {f : Field} (hf : f ∈ r.fields) (allMutable : Bool) :
    (f.accessor allMutable).lines.count f.getter.render = 1 := by
  rw [f.lines_accessor, List.count_append, List.count_cons_self,
    List.count_eq_zero_of_not_mem (avoids_docBlock hr [] f.docs f hf)]
  split
  · rw [List.count_eq_zero_of_not_mem (avoids_setter hr hf f hf)]
  · rfl

/-! ## Setters put in -/

/-- The setter that a line is short of: when it is the getter of a field that is not mutable,
that of the field, with the comments of the field under a heading. -/
def missingSetter (r : Record) (line : String) : List String :=
  match r.fields.find? (·.getter.render == line) with
  | some f => if f.mutable then [] else f.setter.lines f.docs
  | none => []

/-- **Lines with setters put in**, each directly behind the getter of its field. -/
def withSetters (r : Record) (lines : List String) : List String :=
  lines.flatMap fun line => line :: r.missingSetter line

@[simp] theorem withSetters_append (lines lines' : List String) :
    r.withSetters (lines ++ lines') = r.withSetters lines ++ r.withSetters lines' :=
  List.flatMap_append

theorem Avoids.withSetters_eq (h : r.Avoids lines) : r.withSetters lines = lines := by
  have hnone : ∀ line ∈ lines, line :: r.missingSetter line = [line] := by
    intro line hline
    have hfind : r.fields.find? (·.getter.render == line) = none := by
      rw [List.find?_eq_none]
      rintro f hf heq
      exact h f hf (beq_iff_eq.1 heq ▸ hline)
    rw [missingSetter, hfind]
  rw [withSetters, List.flatMap_congr hnone, List.flatMap_singleton']

theorem missingSetter_getter (hr : r.WellFormed) (hfree : r.NamesFree) {f : Field}
    (hf : f ∈ r.fields) :
    r.missingSetter f.getter.render = if f.mutable then [] else f.setter.lines f.docs := by
  obtain ⟨g, hfind⟩ : ∃ g, r.fields.find? (·.getter.render == f.getter.render) = some g := by
    rw [← Option.isSome_iff_exists, List.find?_isSome]
    exact ⟨f, hf, beq_self_eq_true _⟩
  have hsame : (g.getter.render == f.getter.render) = true :=
    @List.find?_some Field (fun g => g.getter.render == f.getter.render) _ _ hfind
  obtain rfl := eq_of_getter_render hr hfree (List.mem_of_find?_eq_some hfind) hf
    (beq_iff_eq.1 hsame)
  rw [missingSetter, hfind]

/-- The functions of a field with its setter put in, unless there was one. -/
theorem withSetters_accessor (hr : r.WellFormed) (hfree : r.NamesFree) {f : Field}
    (hf : f ∈ r.fields) :
    r.withSetters (f.accessor false).lines = (f.accessor true).lines := by
  have hdocs := (avoids_docBlock hr [] f.docs).withSetters_eq
  have hsetter := (avoids_setter hr hf).withSetters_eq
  have hgetter : ∀ rest, r.withSetters (f.getter.render :: rest)
      = f.getter.render :: ((if f.mutable then [] else f.setter.lines f.docs)
        ++ r.withSetters rest) := by
    intro rest
    rw [← missingSetter_getter hr hfree hf]
    rfl
  rw [f.lines_accessor, f.lines_accessor, withSetters_append, hdocs, hgetter]
  unfold Field.hasSetter
  cases f.mutable with
  | true =>
    show _ ++ _ :: ([] ++ r.withSetters (f.setter.lines f.docs)) = _
    rw [hsetter]
    rfl
  | false =>
    show _ ++ _ :: (f.setter.lines f.docs ++ []) = _
    rw [List.append_nil]
    rfl

end Record

/-! ## The lines of a class -/

namespace ClassDecl

/-- The lines of a class behind the functions of its fields. -/
def backLines (c : ClassDecl) : List String := ["", privateLine] ++ (c.layoutLines ++ ["\x7d;"])

theorem lines_eq_around (c : ClassDecl) :
    c.lines = c.frontLines ++ (c.accessors.flatMap Accessor.lines ++ c.backLines) := by
  unfold lines frontLines backLines privateLine
  simp only [List.append_assoc]

end ClassDecl

namespace Record

variable {r : Record} {layout : Layout}

/-- **The lines of a class** are the same for all choices in front of the functions of its fields
and behind them, and there is no getter among those. -/
theorem exists_lines_eq (hr : r.WellFormed) (hfree : r.NamesFree)
    (hslots : ∀ s ∈ layout.slots, Text.isIdentifier s.name.toList = true) :
    ∃ front back, r.Avoids front ∧ r.Avoids back ∧ ∀ allMutable,
      (ClassDecl.ofRecord r layout allMutable).lines
        = front ++ (r.fields.flatMap (fun f => (f.accessor allMutable).lines) ++ back) := by
  have hprivate : r.Avoids ["", privateLine] := by
    intro f hf hmem
    have hnone : ∀ line ∈ ["", privateLine], readCall? line.toList = none := by decide
    have hcall := Field.readCall?_getter (hr.fields f hf)
    rw [hnone _ hmem] at hcall
    cases hcall
  have hlayout : r.Avoids (ClassDecl.ofRecord r layout false).layoutLines :=
    avoids_of_tells hr (tells_layoutLines hslots false) nofun
  have hend : Tells ["\x7d;"] [] [] := .silent (by decide +kernel)
  refine ⟨(ClassDecl.ofRecord r layout false).frontLines,
    (ClassDecl.ofRecord r layout false).backLines, ?_,
    hprivate.append (hlayout.append (avoids_of_tells hr hend nofun)), fun allMutable => ?_⟩
  · refine avoids_of_tells hr (tells_frontLines hr hfree layout false) ?_
    exact List.forall_mem_map.2 fun _ _ => rfl
  · rw [ClassDecl.lines_eq_around]
    show _ ++ ((r.fields.map (Field.accessor · allMutable)).flatMap Accessor.lines ++ _) = _
    rw [List.flatMap_map]
    rfl

/-- **Setters for all fields are put in behind the getters**, and the class is otherwise the
same. -/
theorem withSetters_lines (hr : r.WellFormed) (hfree : r.NamesFree)
    (hslots : ∀ s ∈ layout.slots, Text.isIdentifier s.name.toList = true) :
    r.withSetters (ClassDecl.ofRecord r layout false).lines
      = (ClassDecl.ofRecord r layout true).lines := by
  obtain ⟨front, back, hfront, hback, hlines⟩ := exists_lines_eq hr hfree hslots
  have hfields : r.withSetters (r.fields.flatMap fun f => (f.accessor false).lines)
      = r.fields.flatMap fun f => (f.accessor true).lines := by
    rw [withSetters, List.flatMap_assoc]
    exact List.flatMap_congr fun f hf => withSetters_accessor hr hfree hf
  rw [hlines, hlines, withSetters_append, withSetters_append, hfront.withSetters_eq,
    hback.withSetters_eq, hfields]

/-- **Every getter is one line of the class**, and no other line can be taken for it. -/
theorem count_getter (hr : r.WellFormed) (hfree : r.NamesFree)
    (hslots : ∀ s ∈ layout.slots, Text.isIdentifier s.name.toList = true) {f : Field}
    (hf : f ∈ r.fields) (allMutable : Bool) :
    (ClassDecl.ofRecord r layout allMutable).lines.count f.getter.render = 1 := by
  obtain ⟨front, back, hfront, hback, hlines⟩ := exists_lines_eq hr hfree hslots
  obtain ⟨before, after, hsplit⟩ := List.append_of_mem hf
  have hnodup := hfree.nodup.of_map
  rw [hsplit, List.nodup_middle, List.nodup_cons] at hnodup
  -- the getter is not among the functions of the fields before and after
  have hothers : ∀ g ∈ before ++ after, f.getter.render ∉ (g.accessor allMutable).lines := by
    intro g hg hmem
    have hfield : g ∈ r.fields := by
      rw [hsplit, List.mem_append, List.mem_cons]
      exact (List.mem_append.1 hg).imp id .inr
    obtain rfl := eq_of_mem_accessor hr hfree hf hfield hmem
    exact hnodup.1 hg
  have hnone : ∀ fields : List Field,
      (∀ g ∈ fields, f.getter.render ∉ (g.accessor allMutable).lines) →
        (fields.flatMap fun g => (g.accessor allMutable).lines).count f.getter.render = 0 := by
    intro fields h
    refine List.count_eq_zero_of_not_mem fun hmem => ?_
    obtain ⟨g, hg, hmem⟩ := List.mem_flatMap.1 hmem
    exact h g hg hmem
  rw [List.forall_mem_append] at hothers
  rw [hlines, hsplit, List.flatMap_append, List.flatMap_cons]
  simp only [List.count_append, List.count_eq_zero_of_not_mem (hfront f hf),
    List.count_eq_zero_of_not_mem (hback f hf), hnone _ hothers.1, hnone _ hothers.2,
    count_accessor hr hf]

end Record

/-! ## Sources -/

namespace HeaderFile

/-- **The lines of the class in a source**, between those of the inclusion guard and the
namespace. -/
structure HasClassLines (file : HeaderFile) (r : Record) (options : Options)
    (lines : List String) : Prop where
  /-- They are what stands in the source between other lines. -/
  source : file.source.toList = textOf ((r.header file.layout options).openingLines
    ++ lines ++ (r.header file.layout options).closingLines)
  /-- They begin with the comments of the record and the name of the class. -/
  opening : docBlock "" [] r.docs ++ ["class " ++ r.name ++ " : public Record"] <+: lines
  /-- They end with the bracket that closes the class. -/
  closing : lines.getLast? = some "\x7d;"
  /-- Each of them is one line. -/
  single : FitLines lines

/-- **The classes in two sources of a record agree** but for the setters. They are the same when
both have setters for the same fields. When the second has setters for all and the first has
not, it has the lines of the first with the other setters put in, where the getter of each
field is one line. -/
def ClassesAgree (r : Record) (options options' : Options) (file file' : HeaderFile) : Prop :=
  ∃ lines lines', file.HasClassLines r options lines ∧ file'.HasClassLines r options' lines'
    ∧ (options.allMutable = options'.allMutable → lines' = lines)
    ∧ (options.allMutable = false → options'.allMutable = true →
      lines' = r.withSetters lines ∧ ∀ f ∈ r.fields, lines.count f.getter.render = 1)

namespace OfRecord

variable {file file' : HeaderFile} {r : Record} {options options' : Options}

theorem hasClassLines (h : file.OfRecord r options) (hdocs : FitLines r.docs)
    (hfields : ∀ f ∈ r.fields, FitLines f.docs) :
    file.HasClassLines r options
      (ClassDecl.ofRecord r file.layout options.allMutable).lines := by
  refine ⟨?_, ?_, ?_, ?_⟩
  · rw [h.source, Header.toList_render]
    rfl
  · unfold ClassDecl.lines
    simp only [List.append_assoc]
    exact (List.prefix_append_right_inj _).2 ⟨_, rfl⟩
  · rw [ClassDecl.lines, List.getLast?_concat]
  · exact h.fitLines_body hdocs hfields

theorem classesAgree (h : file.OfRecord r options) (h' : file'.OfRecord r options')
    (hdocs : FitLines r.docs) (hfields : ∀ f ∈ r.fields, FitLines f.docs) :
    ClassesAgree r options options' file file' := by
  have hlayout : file'.layout = file.layout := Except.ok.inj (h'.layout.symm.trans h.layout)
  refine ⟨_, _, h.hasClassLines hdocs hfields, h'.hasClassLines hdocs hfields, ?_, ?_⟩
  · intro hsame
    rw [hlayout, hsame]
  · intro hfalse htrue
    rw [hlayout, hfalse, htrue]
    exact ⟨(Record.withSetters_lines h.wellFormed h.namesFree h.isIdentifier_slots).symm,
      fun f hf => Record.count_getter h.wellFormed h.namesFree h.isIdentifier_slots hf false⟩

end OfRecord

end HeaderFile

/-- What holds between the members of a list and those of two others holds between the
members and the pairs. -/
theorem forall₂_zip {α β γ : Type} {R : α → β → Prop} {S : α → γ → Prop} {as : List α}
    {bs : List β} {cs : List γ} (h : List.Forall₂ R as bs) (h' : List.Forall₂ S as cs) :
    List.Forall₂ (fun a p => R a p.1 ∧ S a p.2) as (bs.zip cs) := by
  induction h generalizing cs with
  | nil => exact .nil
  | cons hab _ ih =>
    cases h' with
    | cons hac h' => exact .cons ⟨hab, hac⟩ (ih h')

/-! ## Marks -/

/-- A field declared mutable. -/
def Field.marked (f : Field) : Field := { f with mutable := true }

/-- A record with all its fields declared mutable. -/
def Record.marked (r : Record) : Record := { r with fields := r.fields.map Field.marked }

/-- A schema with all fields declared mutable. -/
def Schema.marked (s : Schema) : Schema := ⟨s.records.map Record.marked⟩

/-- A schema with all fields declared mutable can be written as it could. -/
theorem Schema.Printable.marked {s : Schema} (h : s.Printable) : s.marked.Printable := by
  refine ⟨?_, ?_⟩
  · intro r' hr'
    obtain ⟨r, hr, rfl⟩ := List.mem_map.1 hr'
    obtain ⟨hname, hne, hfields⟩ := h.wellFormed r hr
    exact ⟨hname, List.map_eq_nil_iff.not.2 hne, List.forall_mem_map.2 fun f hf =>
      ⟨(hfields f hf).name, (hfields f hf).type, (hfields f hf).shape, (hfields f hf).length⟩⟩
  · exact List.forall_mem_map.2 fun r hr =>
      ⟨(h.docs r hr).1, List.forall_mem_map.2 (h.docs r hr).2⟩

/-- A schema with all fields declared mutable comes to what setters for all fields give. -/
theorem Schema.checkedFiles_marked (s : Schema) (options : Options) :
    s.marked.checkedFiles { options with allMutable := false }
      = (s.checkedFiles { options with allMutable := true }).mapError
        (SchemaError.restated id) := by
  let granted := { options with allMutable := true }
  have hsetter : ∀ m, (true || false) = (m || granted.allMutable) := fun m => (Bool.or_true m).symm
  exact checkedFiles_restated id hsetter s

theorem Schema.checkedFiles_eraseLines (s : Schema) (options : Options) :
    s.eraseLines.checkedFiles options
      = (s.checkedFiles options).mapError (SchemaError.restated fun _ => 0) := by
  have hsetter : ∀ m, (id m || options.allMutable) = (m || options.allMutable) := fun _ => rfl
  exact checkedFiles_restated (fun _ => 0) hsetter s

theorem mapError_violation_restated {α : Type} (line : Nat → Nat) (x : Except SchemaError α) :
    (x.mapError (SchemaError.restated line)).mapError SchemaError.violation
      = x.mapError SchemaError.violation := by
  cases x <;> rfl

/-- **Setters for all fields are what marks on all fields give**, on whatever lines the marked
declarations stand. -/
theorem Schema.checkedFiles_of_marked {s t : Schema} (h : t.eraseLines = s.marked.eraseLines)
    (options : Options) :
    (t.checkedFiles { options with allMutable := false }).mapError SchemaError.violation
      = (s.checkedFiles { options with allMutable := true }).mapError SchemaError.violation := by
  rw [← mapError_violation_restated (fun _ => 0), ← checkedFiles_eraseLines, h,
    checkedFiles_eraseLines, mapError_violation_restated, checkedFiles_marked,
    mapError_violation_restated]

/-- **Options change only what they are for.** Under any two options a text has the same error,
or the same schema and the same layouts. In the two sources of a record the lines of the class
are the same, apart from the setters that are put in when all fields get one. And setters for
all fields give the files, or break the rule, that the declarations do when all their fields
are marked mutable, for which there is always a text. -/
theorem compile_option_effects (text : String) (options options' : Options) :
    (compile text options').map Compilation.told = (compile text options).map Compilation.told
    ∧ (∀ c c', compile text options = .ok c → compile text options' = .ok c' →
        List.Forall₂ (fun r files => HeaderFile.ClassesAgree r options options' files.1 files.2)
          c.schema.records (c.files.zip c'.files))
    ∧ ∀ s, Schema.read text = .ok s →
        (∃ t, Schema.read s.marked.print = .ok t ∧ t.eraseLines = s.marked.eraseLines)
        ∧ ∀ text' t, Schema.read text' = .ok t → t.eraseLines = s.marked.eraseLines →
          ((compile text' { options with allMutable := false }).map
              Compilation.files).mapError SchemaError.violation
            = ((compile text { options with allMutable := true }).map
              Compilation.files).mapError SchemaError.violation := by
  refine ⟨?_, ?_, ?_⟩
  · rw [map_told_compile, map_told_compile]
  · intro c c' h h'
    have hschema : c'.schema = c.schema :=
      Except.ok.inj ((compile_eq_ok_iff.1 h').1.symm.trans (compile_eq_ok_iff.1 h).1)
    have hprintable := Schema.printable_of_read (compile_eq_ok_iff.1 h).1
    have hfiles := forall₂_zip (compiled_files h) (hschema ▸ compiled_files h')
    refine ((List.forall₂_and_left _ _).2 ⟨hprintable.docs, hfiles⟩).imp ?_
    rintro r files ⟨⟨hdocs, hfields⟩, hfile, hfile'⟩
    exact hfile.classesAgree hfile' hdocs hfields
  · intro s hs
    refine ⟨⟨s.marked.numbered, Schema.read_print_of_printable
      (Schema.printable_of_read hs).marked, Schema.eraseLines_numbered _⟩, ?_⟩
    intro text' t ht hmarked
    rw [map_files_compile, map_files_compile, hs, ht]
    exact Schema.checkedFiles_of_marked hmarked options

/-- A text with comments, a field that is mutable and one that is not. -/
def pairText : String := "\"A pair.\"\nP:\n  \"Left.\"\n  a u8\n  n u32 mut\n"

/-- The same declarations on other lines, with all fields mutable. -/
def markedPairText : String :=
  "\n\n\"A pair.\"\nP:\n  \"Left.\"\n  a u8 mut\n  n u32 mut\n"

/-- Options that all differ from those that are there by default. -/
def guardedOptions : Options where
  inclusionGuard := .macroName
  scope := some "demo"
  extension := ".hpp"
  allMutable := true

/-- What both texts declare. -/
def markedPair : Schema where
  records :=
    [⟨"P", 0, ["A pair."], [⟨"a", 0, ["Left."], .scalar, .ofPlain "u8" "uint8_t" 1, true⟩,
      ⟨"n", 0, [], .scalar, .ofPlain "u32" "uint32_t" 4, true⟩]⟩]

theorem pairText_option_effects :
    ∃ c c', compile pairText {} = .ok c ∧ compile pairText guardedOptions = .ok c'
      ∧ (compile pairText guardedOptions).map Compilation.told
        = (compile pairText {}).map Compilation.told
      ∧ List.Forall₂
        (fun r files => HeaderFile.ClassesAgree r {} guardedOptions files.1 files.2)
        c.schema.records (c.files.zip c'.files)
      ∧ ∃ t, Schema.read markedPairText = .ok t
        ∧ ((compile markedPairText { allMutable := false }).map
            Compilation.files).mapError SchemaError.violation
          = ((compile pairText { allMutable := true }).map
            Compilation.files).mapError SchemaError.violation := by
  obtain ⟨c, hc, hmarked⟩ : ∃ c, compile pairText {} = .ok c
      ∧ c.schema.marked.eraseLines = markedPair := exists_compile_eq_ok (by decide +kernel)
  obtain ⟨c', hc', -⟩ : ∃ c', compile pairText guardedOptions = .ok c' ∧ c'.files.length = 1 :=
    exists_compile_eq_ok (by decide +kernel)
  obtain ⟨t, ht, herased⟩ : ∃ t, Schema.read markedPairText = .ok t
      ∧ t.eraseLines = markedPair := exists_eq_ok (by decide +kernel)
  obtain ⟨htold, hclasses, hmarks⟩ := compile_option_effects pairText {} guardedOptions
  have hread : Schema.read pairText = .ok c.schema := (compile_eq_ok_iff.1 hc).1
  exact ⟨c, c', hc, hc', htold, hclasses c c' hc hc',
    t, ht, (hmarks c.schema hread).2 markedPairText t ht (herased.trans hmarked.symm)⟩

end FlatRecord
