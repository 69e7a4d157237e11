import FlatRecord.Proofs.ReadBack

/-!
# What a source says of a field

The source of a record has a few lines for each of its fields: the statement of the
constructor that stores it, the getter, the setter if there is one, and the constant. The
constructor takes all fields as parameters, on a line of its own. What these lines say is
told here letter by letter and compared with the slot that the layout has for the field
(`Members.Agree`): the type that the getter names has the size and the alignment of the slot,
the constructor and the setter take a value of that type or a reference to one, and text is
stored with the capacity that the slot has room for.

They are lines of the source, not only of the header that the source is rendered from. A
namespace may be any text; whatever it is, each line of the class stands between two line
feeds (`HeaderFile.OfRecord.mem_sourceLines`).
-/

namespace FlatRecord

/-! ## Declared names -/

theorem getLast?_toList_append {a b : String} {c : Char} (h : b.toList.getLast? = some c) :
    (a ++ b).toList.getLast? = some c := by
  rw [String.toList_append, List.getLast?_append, h, Option.some_or]

namespace TypeExpr

variable {t : TypeExpr}

/-- A name stands next to a pointer or reference mark. -/
theorem declare_of_mark (h : t.render.toList.getLast? = some '*'
    ∨ t.render.toList.getLast? = some '&') (name : String) :
    t.declare name = t.render ++ name := by
  unfold declare
  dsimp only
  rcases h with h | h
  · rw [h]
    rfl
  · rw [h]
    rfl

/-- A name is set off from any other type by a space. -/
theorem declare_of_no_mark (h : t.render.toList.getLast? ≠ some '*'
    ∧ t.render.toList.getLast? ≠ some '&') (name : String) :
    t.declare name = t.render ++ " " ++ name := by
  unfold declare
  dsimp only
  split
  · exact absurd ‹_› h.1
  · exact absurd ‹_› h.2
  · rfl

/-- A reference to a type ends in its mark. -/
theorem getLast?_render_constRef (t : TypeExpr) :
    (constRef t).render.toList.getLast? = some '&' :=
  getLast?_toList_append (by decide +kernel)

/-- The spelling of a type that has a size ends neither in a pointer nor in a reference mark. -/
theorem getLast?_render_of_bytes? {n : Nat} (h : t.bytes? = some n) :
    t.render.toList.getLast? ≠ some '*' ∧ t.render.toList.getLast? ≠ some '&' := by
  have hbracket : ∀ front : String, (front ++ ">").toList.getLast? ≠ some '*'
      ∧ (front ++ ">").toList.getLast? ≠ some '&' := by
    intro front
    rw [getLast?_toList_append (by decide +kernel : ">".toList.getLast? = some '>')]
    decide
  cases t with
  | named spelling =>
    obtain ⟨before, after, hsplit, -⟩ := List.lookup_eq_some_iff.1 h
    have hspellings : ∀ p ∈ before ++ (spelling, n) :: after,
        p.1.toList.getLast? ≠ some '*' ∧ p.1.toList.getLast? ≠ some '&' := by
      rw [← hsplit]
      decide +kernel
    exact hspellings (spelling, n) (List.mem_append_right _ List.mem_cons_self)
  | array element length => exact hbracket ("std::array<" ++ element.render ++ ", " ++ length.repr)
  | optional value => exact hbracket ("std::optional<" ++ value.render)
  | constRef target => cases h

end TypeExpr

theorem Getter.render_of_typed {g : Getter} {type : TypeExpr} (h : g.buffer = .typed type) :
    g.render = memberIndent ++ "inline " ++ g.result.render ++ " &" ++ g.name
      ++ "() const \x7b return " ++ "buffer_at<" ++ type.render ++ ">(" ++ g.constant
      ++ "); \x7d" := by
  have hopen : (">(" : String) = ">" ++ "(" := rfl
  unfold render
  rw [h, hopen]
  dsimp only
  simp only [String.append_assoc]

theorem Getter.render_of_string {g : Getter} (h : g.buffer = .string) :
    g.render = memberIndent ++ "inline " ++ g.result.declare g.name
      ++ "() const \x7b return buffer_at_str(" ++ g.constant ++ "); \x7d" := by
  have hopen : "() const \x7b return buffer_at_str("
      = "() const \x7b return " ++ "buffer_at_str" ++ "(" := rfl
  unfold render
  rw [h, hopen]
  dsimp only
  simp only [String.append_assoc]

theorem Getter.render_of_cString {g : Getter} (h : g.buffer = .cString) :
    g.render = memberIndent ++ "inline " ++ g.result.declare g.name
      ++ "() const \x7b return buffer_at_cstr(" ++ g.constant ++ "); \x7d" := by
  have hopen : "() const \x7b return buffer_at_cstr("
      = "() const \x7b return " ++ "buffer_at_cstr" ++ "(" := rfl
  unfold render
  rw [h, hopen]
  dsimp only
  simp only [String.append_assoc]

/-- The two types of text are spelled as strings and as pointers are. -/
theorem ScalarType.forms_of_text {t : ScalarType} (h : t ∈ catalog) :
    (t.storage = .string →
        t.parameterForm = "const std::string &" ∧ t.resultForm = "std::string_view")
      ∧ (t.storage = .cString →
        t.parameterForm = "const char *" ∧ t.resultForm = "const char *") := by
  revert t
  decide +kernel

/-! ## The members of a field -/

/-- What a class declares for one field. -/
structure Members where
  /-- The parameter of the constructor. -/
  parameter : Parameter
  /-- The statement of the constructor that stores it. -/
  store : Store
  /-- The member functions. -/
  accessor : Accessor
  /-- The offset constant. -/
  constant : OffsetConstant

/-- What a class declares in a place. -/
def ClassDecl.members? (c : ClassDecl) (i : Nat) : Option Members := do
  return ⟨← c.parameters[i]?, ← c.stores[i]?, ← c.accessors[i]?, ← c.constants[i]?⟩

/-- The line of a class that names the parameters of its constructor. -/
def ClassDecl.parameterLine (c : ClassDecl) : String :=
  "    " ++ c.name ++ "(" ++ ", ".intercalate (c.parameters.map Parameter.render) ++ ")"

namespace Members

/-- The lines of source for a field, short of its comments. Its parameter is on the line of
the constructor. -/
def lines (m : Members) : List String :=
  ["        " ++ m.store.render, m.accessor.getter.render, m.constant.render]
    ++ (m.accessor.setter.map Setter.render).toList

/-- **A field stored inline is kept in a slot** as a value of a type. -/
structure KeepsValue (m : Members) (s : Slot) (type : TypeExpr) : Prop where
  /-- The getter reads a value of the type, and names the type. -/
  read : m.accessor.getter.buffer = .typed type
  render_getter : m.accessor.getter.render
    = memberIndent ++ "inline " ++ type.render ++ " &" ++ s.name ++ "() const \x7b return "
      ++ "buffer_at<" ++ type.render ++ ">(" ++ offsetConstant s.name ++ "); \x7d"
  /-- The type has the size and the alignment of the slot. -/
  bytes : type.bytes? = some s.width
  align : type.alignBytes? = some s.align
  /-- Values of the type are taken, by themselves or by reference, and the parameter is
  spelled so. -/
  taken : (m.parameter.type = type ∧ m.parameter.render = type.render ++ " " ++ s.name)
    ∨ (m.parameter.type = .constRef type
      ∧ m.parameter.render = "const " ++ type.render ++ " &" ++ s.name)
  render_store : m.store.render
    = "assign_buffer(" ++ offsetConstant s.name ++ ", " ++ s.name ++ ");"

/-- **A text field is kept in a slot** with a capacity. -/
structure KeepsText (m : Members) (s : Slot) (capacity : Nat) : Prop where
  /-- The getter names no type. -/
  read : ∀ type, m.accessor.getter.buffer ≠ .typed type
  /-- The text is taken as a string and given out as a view, or taken and given out as a
  pointer. -/
  taken : (m.parameter.render = "const std::string &" ++ s.name
      ∧ m.store.value = s.name ++ ".c_str()"
      ∧ m.accessor.getter.render = memberIndent ++ "inline std::string_view " ++ s.name
        ++ "() const \x7b return buffer_at_str(" ++ offsetConstant s.name ++ "); \x7d")
    ∨ (m.parameter.render = "const char *" ++ s.name
      ∧ m.store.value = s.name
      ∧ m.accessor.getter.render = memberIndent ++ "inline const char *" ++ s.name
        ++ "() const \x7b return buffer_at_cstr(" ++ offsetConstant s.name ++ "); \x7d")
  /-- The capacity is passed on. -/
  stored : m.store.capacity = some capacity
  render_store : m.store.render
    = "assign_buffer(" ++ offsetConstant s.name ++ ", " ++ m.store.value
      ++ ", " ++ capacity.repr ++ ");"
  /-- The slot has room for the text and what is stored with it. -/
  width : capacity + 9 = s.width
  align : s.align = 8

/-- **What a class declares for a field is about its slot.** The constant has the
offset of the slot, the constructor and the setter do the same, and the getter reads
what they store. -/
structure Agree (m : Members) (f : Field) (s : Slot) : Prop where
  name : s.name = f.name
  constant : m.constant = ⟨offsetConstant f.name, s.offset, s.padding⟩
  setter : ∀ x ∈ m.accessor.setter, x.parameter = m.parameter ∧ x.store = m.store
    ∧ x.render = memberIndent ++ "inline void " ++ s.name ++ "(" ++ m.parameter.render
      ++ ") \x7b " ++ m.store.render ++ " \x7d"
  value : f.type.storage = .plain → ∃ type, m.KeepsValue s type
  text : f.type.storage ≠ .plain → ∃ capacity, m.KeepsText s capacity

end Members

/-- The members of a field, under a slot. -/
def Field.members (f : Field) (s : Slot) (allMutable : Bool) : Members :=
  ⟨f.parameter, f.store, f.accessor allMutable, s.constant⟩

theorem ClassDecl.members?_ofRecord {r : Record} {l : Layout} (allMutable : Bool) {i : Nat}
    {f : Field} {s : Slot} (hf : r.fields[i]? = some f) (hs : l.slots[i]? = some s) :
    (ClassDecl.ofRecord r l allMutable).members? i = some (f.members s allMutable) := by
  simp only [members?, ofRecord, List.getElem?_map, hf, hs]
  rfl

namespace Field

variable {f : Field} {s : Slot}

theorem keepsValue_members (h : f.WellFormed) (hname : s.name = f.name)
    (hwidth : s.width = f.exactWidth) (halign : s.align = f.alignUnit) (allMutable : Bool)
    (hs : f.type.storage = .plain) : (f.members s allMutable).KeepsValue s f.resultType := by
  obtain ⟨hread, hbytes, halignBytes, htaken, hcap⟩ := types_of_plain h hs
  refine ⟨hread, ?getter, hwidth ▸ hbytes, halign ▸ halignBytes, ?parameter, ?store⟩
  case getter =>
    rw [hname]
    exact Getter.render_of_typed hread
  case parameter =>
    rw [hname]
    show (f.parameterType = _ ∧ f.parameterType.declare f.name = _)
      ∨ (f.parameterType = _ ∧ f.parameterType.declare f.name = _)
    rcases htaken with heq | heq
    · rw [heq]
      exact .inl ⟨rfl, TypeExpr.declare_of_no_mark (TypeExpr.getLast?_render_of_bytes? hbytes) _⟩
    · rw [heq]
      exact .inr ⟨rfl, TypeExpr.declare_of_mark (.inr (TypeExpr.getLast?_render_constRef _)) _⟩
  case store =>
    have hrender := Store.render_of_capacity_none hcap
    rwa [constant_store, value_store hcap, ← hname] at hrender

/-- A text field is taken and given out by the two spellings of its type. -/
theorem taken_of_text (h : f.WellFormed) (hs : f.type.storage ≠ .plain) :
    (f.parameter.render = "const std::string &" ++ f.name
        ∧ f.store.value = f.name ++ ".c_str()"
        ∧ f.getter.render = memberIndent ++ "inline std::string_view " ++ f.name
          ++ "() const \x7b return buffer_at_str(" ++ offsetConstant f.name ++ "); \x7d")
      ∨ (f.parameter.render = "const char *" ++ f.name
        ∧ f.store.value = f.name
        ∧ f.getter.render = memberIndent ++ "inline const char *" ++ f.name
          ++ "() const \x7b return buffer_at_cstr(" ++ offsetConstant f.name ++ "); \x7d") := by
  have hsuits := h.shape
  obtain ⟨hstring, hpointer⟩ := ScalarType.forms_of_text h.type
  obtain ⟨name, line, docs, shape, type, mutable⟩ := f
  dsimp only at hs hsuits hstring hpointer
  have hreference := TypeExpr.declare_of_mark (t := .named "const std::string &")
    (.inr (by decide +kernel)) name
  have hpointed := TypeExpr.declare_of_mark (t := .named "const char *")
    (.inl (by decide +kernel)) name
  have hview := TypeExpr.declare_of_no_mark (t := .named "std::string_view")
    (by decide +kernel) name
  cases shape with
  | scalar | array _ | optional _ => exact absurd hsuits hs
  | string capacity =>
    obtain ⟨hparameter, hresult⟩ := hstring hsuits
    refine .inl ⟨?_, rfl, ?_⟩
    · show (TypeExpr.named type.parameterForm).declare name = _
      rw [hparameter, hreference]
      rfl
    · rw [Getter.render_of_string rfl]
      show memberIndent ++ "inline " ++ (TypeExpr.named type.resultForm).declare name ++ _ ++ _
        ++ _ = _
      rw [hresult, hview, ← String.append_assoc]
      rfl
  | cString capacity =>
    obtain ⟨hparameter, hresult⟩ := hpointer hsuits
    refine .inr ⟨?_, rfl, ?_⟩
    · show (TypeExpr.named type.parameterForm).declare name = _
      rw [hparameter, hpointed]
      rfl
    · rw [Getter.render_of_cString rfl]
      show memberIndent ++ "inline " ++ (TypeExpr.named type.resultForm).declare name ++ _ ++ _
        ++ _ = _
      rw [hresult, hpointed, ← String.append_assoc]
      rfl

theorem keepsText_members (h : f.WellFormed) (hname : s.name = f.name)
    (hwidth : s.width = f.exactWidth) (halign : s.align = f.alignUnit) (allMutable : Bool)
    (hs : f.type.storage ≠ .plain) :
    ∃ capacity, (f.members s allMutable).KeepsText s capacity := by
  obtain ⟨hread, halignUnit, n, hcap, hn⟩ := capacity_of_text h hs
  refine ⟨n, hread, ?taken, hcap, ?store, hn.trans hwidth.symm, halign.trans halignUnit⟩
  case taken =>
    rw [hname]
    exact taken_of_text h hs
  case store =>
    have hrender := Store.render_of_capacity_some hcap
    rwa [constant_store, ← hname] at hrender

theorem agree_members (h : f.WellFormed) (hname : s.name = f.name)
    (hwidth : s.width = f.exactWidth) (halign : s.align = f.alignUnit) (allMutable : Bool) :
    (f.members s allMutable).Agree f s := by
  refine ⟨hname, ?_, ?_, fun hs => ⟨_, keepsValue_members h hname hwidth halign allMutable hs⟩,
    keepsText_members h hname hwidth halign allMutable⟩
  · rw [← hname]
    rfl
  · intro x hx
    obtain rfl := eq_setter_of_mem hx
    rw [hname]
    exact ⟨rfl, rfl, rfl⟩

end Field

/-! ## Lines of a source -/

/-- The lines for a field are lines of the class. -/
theorem ClassDecl.lines_members_subset {c : ClassDecl} {i : Nat} {m : Members}
    (h : c.members? i = some m) : m.lines ⊆ c.lines := by
  simp only [members?, Option.bind_eq_bind, Option.bind_eq_some_iff, Option.pure_def,
    Option.some.injEq] at h
  obtain ⟨p, -, st, hst, a, ha, k, hk, rfl⟩ := h
  have hstore : "        " ++ st.render ∈ c.valueConstructor := by
    refine List.mem_append_left _ (List.mem_append_right _ ?_)
    exact List.mem_map.2 ⟨st, List.mem_of_getElem? hst, rfl⟩
  have haccessor : ∀ x ∈ a.lines, x ∈ c.accessors.flatMap Accessor.lines := fun x hx =>
    List.mem_flatMap.2 ⟨a, List.mem_of_getElem? ha, hx⟩
  have hgetter : a.getter.render ∈ a.lines :=
    List.mem_append_left _ (List.mem_append_right _ List.mem_cons_self)
  have hsetter : ∀ x ∈ (a.setter.map Setter.render).toList, x ∈ a.lines := by
    intro x hx
    refine List.mem_append_right _ ?_
    cases hs : a.setter with
    | none =>
      rw [hs] at hx
      exact absurd hx List.not_mem_nil
    | some setter =>
      rw [hs] at hx
      obtain rfl := List.mem_singleton.1 hx
      exact List.mem_append_right _ List.mem_cons_self
  have hconstant : k.render ∈ c.layoutLines :=
    List.mem_append_left _ (List.mem_map.2 ⟨k, List.mem_of_getElem? hk, rfl⟩)
  intro x hx
  simp only [Members.lines, List.mem_append, List.mem_cons, List.not_mem_nil, or_false] at hx
  simp only [ClassDecl.lines, List.mem_append]
  rcases hx with (rfl | rfl | rfl) | hx
  · exact .inl (.inl (.inl (.inl (.inl (.inr hstore)))))
  · exact .inl (.inl (.inl (.inr (haccessor _ hgetter))))
  · exact .inl (.inr hconstant)
  · exact .inl (.inl (.inl (.inr (haccessor x (hsetter x hx)))))

/-- The parameters of the constructor are on a line of the class. -/
theorem ClassDecl.parameterLine_mem_lines (c : ClassDecl) : c.parameterLine ∈ c.lines := by
  have hfirst : c.parameterLine ∈ c.valueConstructor :=
    List.mem_append_left _ (List.mem_append_left _ List.mem_cons_self)
  simp only [lines, List.mem_append]
  exact .inl (.inl (.inl (.inl (.inl (.inr hfirst)))))

/-- A record with a layout has members for every field that agree with the slot. -/
theorem Record.exists_members {r : Record} {l : Layout} (hwf : ∀ f ∈ r.fields, f.WellFormed)
    (hl : r.layout = .ok l) (allMutable : Bool) {i : Nat} {f : Field}
    (hf : r.fields[i]? = some f) :
    ∃ s m, l.slots[i]? = some s ∧ (ClassDecl.ofRecord r l allMutable).members? i = some m
      ∧ m.Agree f s ∧ m.lines ⊆ (ClassDecl.ofRecord r l allMutable).lines := by
  have hslots : l.slots = r.exactSlots :=
    congrArg Layout.slots (eq_of_layout_eq_ok (fun g hg => (hwf g hg).type) hl)
  obtain ⟨s, hs, hname, hwidth, halign⟩ := Record.exists_slot hslots hf
  have hm := ClassDecl.members?_ofRecord allMutable hf hs
  exact ⟨s, _, hs, hm, Field.agree_members (hwf f (List.mem_of_getElem? hf)) hname hwidth halign
    allMutable, ClassDecl.lines_members_subset hm⟩

/-- **A file stores a record as it is laid out.** -/
structure HeaderFile.Stores (file : HeaderFile) (r : Record) (options : Options) : Prop where
  /-- The source is that of the record's class. -/
  source : file.source = (r.header file.layout options).render
  /-- The parameters of the constructor stand in the source, for all fields in their order. -/
  parameters : (r.header file.layout options).body.parameterLine.toList ∈ file.sourceLines
  /-- What the class declares for a field is about the slot of the field, and stands
  in the source. -/
  fields : ∀ i f, r.fields[i]? = some f → ∃ s m, file.layout.slots[i]? = some s
    ∧ (r.header file.layout options).body.members? i = some m ∧ m.Agree f s
    ∧ ∀ l ∈ m.lines, l ∈ (r.header file.layout options).lines ∧ l.toList ∈ file.sourceLines
  /-- The accesses of the class fit in its buffer. -/
  accesses : (r.header file.layout options).body.AccessesFit

theorem HeaderFile.OfRecord.stores {file : HeaderFile} {r : Record} {options : Options}
    (h : file.OfRecord r options) (hdocs : FitLines r.docs)
    (hfields : ∀ f ∈ r.fields, FitLines f.docs) : file.Stores r options := by
  have hwf := h.wellFormed.fields
  refine ⟨h.source, ?_, fun i f hf => ?_,
    Record.accessesFit hwf h.namesFree.nodup h.layout options.allMutable⟩
  · exact h.mem_sourceLines hdocs hfields (ClassDecl.parameterLine_mem_lines _)
  · obtain ⟨s, m, hs, hm, hagree, hlines⟩ :=
      Record.exists_members hwf h.layout options.allMutable hf
    refine ⟨s, m, hs, hm, hagree, fun l hl => ?_⟩
    exact ⟨List.mem_append_left _ (List.mem_append_right _ (hlines hl)),
      h.mem_sourceLines hdocs hfields (hlines hl)⟩

/-- **What a header says of a field is what the layout says.** Whatever compiles: the
source of a record has lines for each of its fields that take it as a parameter, read it
and store it with the size and the alignment of its slot – as a value of a type, or as text
with a capacity. All accesses of the class are then aligned and within the buffer, and those
of different fields have no byte in common. -/
theorem storage_agrees {text : String} {options : Options} {c : Compilation}
    (h : compile text options = .ok c) :
    List.Forall₂ (fun r file => file.Stores r options) c.schema.records c.files := by
  have hprintable := Schema.printable_of_read (compile_eq_ok_iff.1 h).1
  refine ((List.forall₂_and_left _ _).2 ⟨hprintable.docs, compiled_files h⟩).imp ?_
  rintro r file ⟨⟨hdocs, hfields⟩, hfile⟩
  exact hfile.stores hdocs hfields

/-- A record with padding before text, and an optional array at its end. -/
def sampleText : String := "P:\n  a u8\n  t str[3]\n  v optional<u16[2]>\n"

theorem storage_sampleText :
    ∃ c, compile sampleText {} = .ok c ∧ c.files.map (·.layout.bufferSize) = [26]
      ∧ List.Forall₂ (fun r file => file.Stores r {}) c.schema.records c.files := by
  obtain ⟨c, hc, hsize⟩ : ∃ c, compile sampleText {} = .ok c
      ∧ c.files.map (·.layout.bufferSize) = [26] := exists_compile_eq_ok (by decide +kernel)
  exact ⟨c, hc, hsize, storage_agrees hc⟩

end FlatRecord
