import FlatRecord.Proofs.Comments
import FlatRecord.Proofs.Compilation

/-!
# Documentation and code

A header has comments in three places: the documentation over a class, that over its
functions, and the notes behind constants and behind the end of a namespace. Only the
first two hold text that a user wrote, and it goes into the comment as it is. So a
header is woven from its lines without comments (`Header.uncommented`) and from comment
blocks (`Record.woven_header`), and what the documentation says has no influence on its
code exactly when the blocks have none themselves (`code_eq_iff_docsHidden`). That is
so as long as no comment in them ends the comment that it is put in.

That nothing else in a header begins a comment rests on what its class is made of
(`Record.madeOf_uncommented`), on the check of the namespace, and on what names are in
upper case.
-/

namespace FlatRecord

/-! ## Classes -/

/-- A constant, and behind it the note, if it has one. -/
theorem OffsetConstant.render_eq (k : OffsetConstant) :
    k.render = if k.padding = 0 then k.uncommented
      else k.uncommented ++ "/*" ++ (" " ++ k.padding.repr ++ " padding ") ++ "*/" := by
  apply String.toList_inj.1
  split
  · rename_i hpadding
    simp [render, uncommented, hpadding]
  · rename_i hpadding
    simp [render, uncommented, hpadding, String.toList_append]

theorem closed_constant {k : OffsetConstant} (h : IsCode k.uncommented) :
    Closed [k.render] ∧ codeOf [k.render] = nonblank [k.uncommented] := by
  have hdigits : ∀ c ∈ k.padding.repr.toList, c ≠ '*' := by
    rintro c hc rfl
    rw [Nat.toList_repr] at hc
    exact absurd (Nat.isDigit_of_mem_toDigits (by decide) (by decide) hc) (by decide)
  rw [k.render_eq]
  split
  · exact h.closed
  · refine h.closed_comment (.of_forall_ne ?_)
    rw [String.toList_append, String.toList_append, List.forall_mem_append,
      List.forall_mem_append]
    exact ⟨⟨Text.forall_mem_of_all rfl, hdigits⟩, Text.forall_mem_of_all rfl⟩

theorem blank_memberIndent : ∀ c ∈ memberIndent.toList, c = ' ' := Text.forall_mem_of_all rfl

namespace Accessor

/-- The comment blocks over the functions of an accessor. -/
def blocks (a : Accessor) : List (List String) :=
  docBlock memberIndent [] a.docs
    :: (a.setter.map fun _ => docBlock memberIndent ["(Setter)"] a.docs).toList

/-- An accessor is woven from its functions and the comment blocks over them. -/
theorem woven {a : Accessor} (h : ∀ l ∈ a.uncommented, IsCode l) :
    Woven a.lines a.blocks a.uncommented := by
  have hblock : ∀ {heading : List String}, Contained heading →
      Woven (docBlock memberIndent heading a.docs) [docBlock memberIndent heading a.docs] [] :=
    fun hheading => .of_block (closed_docBlock blank_memberIndent hheading)
  rw [uncommented, List.forall_mem_cons] at h
  have hgetter : Woven (a.getter.lines a.docs) [docBlock memberIndent [] a.docs]
      [a.getter.render] :=
    (hblock contained_nil).append (.of_closed h.1.closed)
  unfold lines blocks uncommented
  cases hs : a.setter with
  | none =>
    exact hgetter.append .nil
  | some s =>
    rw [hs] at h
    exact hgetter.append ((hblock (by decide +kernel)).append
      (.of_closed (h.2 _ List.mem_cons_self).closed))

end Accessor

namespace ClassDecl

/-- The comment blocks of a class. -/
def blocks (c : ClassDecl) : List (List String) :=
  docBlock "" [] c.docs :: c.accessors.flatMap Accessor.blocks

/-- **A class is woven from its lines without comments and its comment blocks.** -/
theorem woven {c : ClassDecl} (h : ∀ l ∈ c.uncommented, IsCode l) :
    Woven c.lines c.blocks c.uncommented := by
  unfold uncommented at h
  simp only [List.forall_mem_append] at h
  obtain ⟨⟨⟨⟨⟨⟨⟨hhead, hvalues⟩, hcommon⟩, haccessors⟩, hprivate⟩, hconstants⟩, hsize⟩, hend⟩ := h
  have hblock : Woven (docBlock "" [] c.docs) [docBlock "" [] c.docs] [] :=
    .of_block (closed_docBlock nofun contained_nil)
  have haccessors : Woven (c.accessors.flatMap Accessor.lines)
      (c.accessors.flatMap Accessor.blocks) (c.accessors.flatMap Accessor.uncommented) :=
    .flatMap fun a ha => Accessor.woven fun l hl => haccessors l (List.mem_flatMap.2 ⟨a, ha, hl⟩)
  have hconstants : Woven (c.constants.map OffsetConstant.render) []
      (c.constants.map OffsetConstant.uncommented) :=
    .map fun k hk => closed_constant (hconstants _ (List.mem_map_of_mem hk))
  have hlines := ((((((hblock.append (.of_forall_isCode hhead)).append
    (.of_forall_isCode hvalues)).append (.of_forall_isCode hcommon)).append haccessors).append
    (.of_forall_isCode hprivate)).append (hconstants.append (.of_forall_isCode hsize))).append
    (.of_forall_isCode hend)
  unfold lines layoutLines blocks uncommented
  simp only [List.append_assoc, List.append_nil, List.nil_append, List.cons_append] at hlines ⊢
  exact hlines

end ClassDecl

/-! ## Headers -/

namespace Header

/-- What stands behind the class, without comments. -/
def closingCode (h : Header) : List String :=
  (match h.scope with
    | some _ => ["\x7d "]
    | none => [])
    ++ (match h.macroName with
      | some _ => ["", "#endif"]
      | none => [])

/-- The lines of a header without comments. -/
def uncommented (h : Header) : List String :=
  h.openingLines ++ h.body.uncommented ++ h.closingCode

variable {h : Header}

theorem isCode_openingLines (hguard : ∀ m ∈ h.macroName, IsCode m)
    (hscope : ∀ s ∈ h.scope, IsCode s) : ∀ l ∈ h.openingLines, IsCode l := by
  unfold openingLines
  simp only [List.forall_mem_append]
  refine ⟨⟨⟨?guard, by decide +kernel⟩, ?scope⟩, by decide +kernel⟩
  case guard =>
    cases hm : h.macroName with
    | none =>
      show ∀ l ∈ ["#pragma once"], IsCode l
      decide +kernel
    | some m =>
      have hm' := hguard m hm
      simp only [List.forall_mem_cons]
      exact ⟨.append (by decide +kernel) hm', .append (by decide +kernel) hm', by decide, nofun⟩
  case scope =>
    cases hs : h.scope with
    | none => exact nofun
    | some s =>
      simp only [List.forall_mem_cons]
      exact ⟨.append (by decide +kernel) (hscope s hs), by decide +kernel, nofun⟩

/-- A text without a slash stays in the comment behind a namespace. -/
theorem staysInside_scope {scope : String} (h : IsCode scope) :
    Text.StaysInside (" " ++ scope ++ " ").toList := by
  have hslash : ∀ c ∈ (" " ++ scope ++ " ").toList, c ≠ '/' := by
    rw [String.toList_append, String.toList_append, List.forall_mem_append,
      List.forall_mem_append]
    exact ⟨⟨Text.forall_mem_of_all rfl, fun c hc => (h c hc).1⟩, Text.forall_mem_of_all rfl⟩
  refine .of_not_endsComment (fun hend => ?_) ?_
  · exact hslash _ hend.mem.2 rfl
  · rw [String.toList_append, List.getLast?_append]
    simp

theorem woven_closingLines (hscope : ∀ s ∈ h.scope, IsCode s) :
    Woven h.closingLines [] h.closingCode := by
  suffices hboth : Woven h.closingLines ([] ++ []) h.closingCode from hboth
  unfold closingLines closingCode
  refine Woven.append ?scope ?guard
  case scope =>
    cases hs : h.scope with
    | none => exact .nil
    | some s =>
      have hline : "\x7d /* " ++ s ++ " */" = "\x7d " ++ "/*" ++ (" " ++ s ++ " ") ++ "*/" := by
        apply String.toList_inj.1
        simp [String.toList_append]
      have hcode : IsCode "\x7d " := by decide
      show Woven ["\x7d /* " ++ s ++ " */"] [] ["\x7d "]
      rw [hline]
      exact .of_closed (hcode.closed_comment (staysInside_scope (hscope s hs)))
  case guard =>
    cases h.macroName with
    | none => exact .nil
    | some m =>
      have hend : ∀ l ∈ ["", "#endif"], IsCode l := by decide +kernel
      exact .of_forall_isCode hend

/-- **A header is woven from its lines without comments and the comment blocks of its
class.** -/
theorem woven (hguard : ∀ m ∈ h.macroName, IsCode m) (hscope : ∀ s ∈ h.scope, IsCode s)
    (hbody : ∀ l ∈ h.body.uncommented, IsCode l) :
    Woven h.lines h.body.blocks h.uncommented := by
  have hlines := ((Woven.of_forall_isCode (isCode_openingLines hguard hscope)).append
    (ClassDecl.woven hbody)).append (woven_closingLines hscope)
  rwa [List.nil_append, List.append_nil] at hlines

/-- The text of a header is that of its lines. -/
theorem toList_render (h : Header) : h.render.toList = textOf h.lines :=
  toList_join_lines h.lines

end Header

/-! ## Names around the class -/

namespace Text

/-- Every character is a colon or stands in a piece. -/
theorem exists_mem_scopes {cs : List Char} {c : Char} (hc : c ∈ cs) :
    c = ':' ∨ ∃ p ∈ scopes cs, c ∈ p := by
  have hfirst : ∀ {d : Char} {ps : List (List Char)},
      (c = d ∨ ∃ p ∈ ps, c ∈ p) → ∃ p ∈ consFirst d ps, c ∈ p := by
    rintro d (_ | ⟨q, qs⟩) (rfl | ⟨p, hp, hcp⟩)
    · exact ⟨_, List.mem_cons_self, List.mem_cons_self⟩
    · exact absurd hp List.not_mem_nil
    · exact ⟨_, List.mem_cons_self, List.mem_cons_self⟩
    · rcases List.mem_cons.1 hp with rfl | hp
      · exact ⟨_, List.mem_cons_self, List.mem_cons_of_mem _ hcp⟩
      · exact ⟨p, List.mem_cons_of_mem _ hp, hcp⟩
  induction cs using scopes.induct with
  | case1 => exact absurd hc List.not_mem_nil
  | case2 cs ih =>
    rcases List.mem_cons.1 hc with rfl | hc
    · exact .inl rfl
    rcases List.mem_cons.1 hc with rfl | hc
    · exact .inl rfl
    exact (ih hc).imp_right fun ⟨p, hp, hcp⟩ => ⟨p, List.mem_cons_of_mem _ hp, hcp⟩
  | case3 d cs hsingle ih =>
    rw [scopes.eq_3 d cs hsingle]
    rcases List.mem_cons.1 hc with rfl | hc
    · exact .inr (hfirst (.inl rfl))
    · exact (ih hc).imp_right fun h => hfirst (.inr h)

/-- A character far enough up is plain, and so is the one that stands in for a code
point without a character. -/
theorem isPlain_ofNat {n : Nat} (h : 0x2F < n) : isPlain (Char.ofNat n) = true := by
  by_cases hvalid : n.isValidChar
  · have htoNat : (Char.ofNat n).toNat = n := by
      rw [Char.ofNat, dif_pos hvalid]
      rfl
    have hne : ∀ d : Char, d.toNat ≤ 0x2F → Char.ofNat n ≠ d := by
      rintro d hd rfl
      exact absurd (htoNat ▸ hd) (Nat.not_le.2 h)
    exact isPlain_iff.2 ⟨⟨hne '/' (by decide), hne '#' (by decide)⟩, hne '\n' (by decide)⟩
  · have hzero : Char.ofNat n = '\x00' := dif_neg hvalid
    rw [hzero]
    decide

/-- The upper-case form of a plain character is plain. -/
theorem isPlain_of_mem_uppercaseChar {c d : Char} (hc : isPlain c = true)
    (hd : d ∈ uppercaseChar c) : isPlain d = true := by
  have hexpansions : ∀ p ∈ expansions, ∀ n ∈ p.2, 0x2F < n := by decide +kernel
  have hruns : ∀ r ∈ caseRuns, 0x2F < r.image := by decide +kernel
  unfold uppercaseChar at hd
  split at hd
  · rename_i form hform
    obtain ⟨n, hn, rfl⟩ := List.mem_map.1 hd
    obtain ⟨before, after, hsplit, -⟩ := List.lookup_eq_some_iff.1 hform
    exact isPlain_ofNat (hexpansions (c.toNat, form) (hsplit ▸ by simp) n hn)
  · split at hd
    · rename_i run hrun
      obtain rfl := List.mem_singleton.1 hd
      exact isPlain_ofNat (Nat.lt_add_right _ (hruns run (List.mem_of_find?_eq_some hrun)))
    · obtain rfl := List.mem_singleton.1 hd
      exact hc

end Text

/-- A valid namespace is plain. -/
theorem Options.isPlain_scope {options : Options} (h : options.invalidScope? = none) :
    ∀ s ∈ options.scope, ∀ c ∈ s.toList, Text.isPlain c = true := by
  intro s hs c hc
  have hvalid : isScope s = true := by simpa using Option.filter_eq_none_iff.1 h s hs
  rcases Text.exists_mem_scopes hc with rfl | ⟨p, hp, hcp⟩
  · decide
  · exact Text.isPlain_of_isIdentifierPart
      (Text.isIdentifierPart_of_mem (List.all_eq_true.1 hvalid p hp) hcp)

/-- The macro of a record is plain, as its name is. -/
theorem Record.isPlain_guardMacro {r : Record} (h : r.WellFormed) :
    ∀ c ∈ r.guardMacro.toList, Text.isPlain c = true := by
  have hname : ∀ c ∈ (String.ofList (Text.uppercase r.name.toList)).toList,
      Text.isPlain c = true := by
    rw [String.toList_ofList]
    intro d hd
    obtain ⟨c, hc, hd⟩ := List.mem_flatMap.1 hd
    exact Text.isPlain_of_mem_uppercaseChar
      (Text.isPlain_of_isIdentifierPart (Text.isIdentifierPart_of_mem h.name hc)) hd
  unfold guardMacro
  simp only [String.toList_append, List.forall_mem_append]
  exact ⟨⟨Text.forall_mem_of_all (by decide +kernel), hname⟩,
    Text.forall_mem_of_all (by decide +kernel)⟩

/-! ## Records -/

/-- A field without its line and its comments. -/
def Field.bare (f : Field) : Field := { f with line := 0, docs := [] }

namespace Record

/-- A record without lines and comments. -/
def bare (r : Record) : Record :=
  { r with line := 0, docs := [], fields := r.fields.map Field.bare }

/-- **The documentation of a record is hidden**: the comment blocks that it is put in have
no code. -/
structure DocsHidden (r : Record) : Prop where
  /-- The block over the class. -/
  docs : codeOf (docBlock "" [] r.docs) = []
  /-- The blocks over the functions of the fields. -/
  fields : ∀ f ∈ r.fields, codeOf (docBlock memberIndent [] f.docs) = []

/-- **The documentation of a record is contained**: none of its comments ends a comment
block. -/
structure DocsContained (r : Record) : Prop where
  /-- Those of the record itself. -/
  docs : Contained r.docs
  /-- Those of its fields. -/
  fields : ∀ f ∈ r.fields, Contained f.docs

instance (r : Record) : Decidable r.DocsContained :=
  decidable_of_iff (Contained r.docs ∧ ∀ f ∈ r.fields, Contained f.docs)
    ⟨fun h => ⟨h.1, h.2⟩, fun h => ⟨h.docs, h.fields⟩⟩

/-- Documentation that is contained is hidden. -/
theorem DocsContained.hidden {r : Record} (h : r.DocsContained) : r.DocsHidden :=
  ⟨codeOf_docBlock nofun h.docs, fun f hf => codeOf_docBlock blank_memberIndent (h.fields f hf)⟩

/-- The layout of a record, if it has one. -/
def exactLayout (r : Record) : Layout := ⟨r.name, r.exactSlots, lastStop r.exactSlots⟩

/-- **The code of a record's header**: its lines without comments and without blank
ones. -/
def code (r : Record) (options : Options) : List (List Char) :=
  nonblank (r.header r.exactLayout options).uncommented

variable {r : Record} {layout : Layout} {options : Options}

/-- The names around the class of a record and its lines without comments are code. -/
theorem isCode_header (h : r.WellFormed)
    (hnames : layout.slots.map Slot.name = r.fields.map Field.name)
    (hscope : options.invalidScope? = none) :
    (∀ m ∈ (r.header layout options).macroName, IsCode m)
      ∧ (∀ s ∈ (r.header layout options).scope, IsCode s)
      ∧ ∀ l ∈ (r.header layout options).body.uncommented, IsCode l := by
  refine ⟨fun m hm => ?_, fun s hs => .of_plain (options.isPlain_scope hscope s hs),
    fun l hl => .of_plain (madeOf_uncommented h hnames options.allMutable l hl).plain⟩
  unfold header at hm
  dsimp only at hm
  split at hm
  · obtain rfl := Option.some.inj hm
    exact .of_plain (isPlain_guardMacro h)
  · cases hm

/-- **The header of a record is woven from its lines without comments and the comment
blocks of its class.** -/
theorem woven_header (h : r.WellFormed)
    (hnames : layout.slots.map Slot.name = r.fields.map Field.name)
    (hscope : options.invalidScope? = none) :
    Woven (r.header layout options).lines (r.header layout options).body.blocks
      (r.header layout options).uncommented := by
  obtain ⟨hguard, hscope, hbody⟩ := isCode_header h hnames hscope
  exact Header.woven hguard hscope hbody

/-- The comment blocks of a class have no code exactly when the documentation is
hidden: that over a setter has the same code as that over the getter. -/
theorem codeOf_blocks_iff :
    (∀ b ∈ (r.header layout options).body.blocks, codeOf b = []) ↔ r.DocsHidden := by
  have hfield : ∀ f : Field, (∀ b ∈ (f.accessor options.allMutable).blocks, codeOf b = [])
      ↔ codeOf (docBlock memberIndent [] f.docs) = [] := by
    intro f
    have hsetter : codeOf (docBlock memberIndent ["(Setter)"] f.docs)
        = codeOf (docBlock memberIndent [] f.docs) :=
      codeOf_docBlock_heading blank_memberIndent (by decide +kernel)
    unfold Accessor.blocks Field.accessor
    dsimp only
    split
    · simp [hsetter]
    · simp
  have hfields : (∀ b ∈ (r.header layout options).body.accessors.flatMap Accessor.blocks,
      codeOf b = []) ↔ ∀ f ∈ r.fields, codeOf (docBlock memberIndent [] f.docs) = [] := by
    show (∀ b ∈ (r.fields.map (Field.accessor · options.allMutable)).flatMap Accessor.blocks, _) ↔ _
    rw [List.flatMap_map, List.forall_mem_flatMap]
    exact forall₂_congr fun f _ => hfield f
  unfold ClassDecl.blocks
  rw [List.forall_mem_cons, hfields]
  exact ⟨fun h => ⟨h.1, h.2⟩, fun h => ⟨h.docs, h.fields⟩⟩

theorem exactSlotsFrom_bare (cursor : Nat) (fields : List Field) :
    exactSlotsFrom cursor (fields.map Field.bare) = exactSlotsFrom cursor fields := by
  induction fields generalizing cursor with
  | nil => rfl
  | cons f rest ih =>
    rw [List.map_cons, exactSlotsFrom, exactSlotsFrom, ih]
    rfl

theorem exactLayout_bare (r : Record) : r.bare.exactLayout = r.exactLayout := by
  have hslots : r.bare.exactSlots = r.exactSlots := by
    rw [exactSlots_eq, exactSlots_eq]
    exact exactSlotsFrom_bare 0 r.fields
  rw [exactLayout, hslots]
  rfl

/-- The documentation has no part in the lines without comments. -/
theorem uncommented_bare (r : Record) (layout : Layout) (options : Options) :
    (r.bare.header layout options).uncommented = (r.header layout options).uncommented := by
  have hbody : (ClassDecl.ofRecord r.bare layout options.allMutable).uncommented
      = (ClassDecl.ofRecord r layout options.allMutable).uncommented := by
    unfold ClassDecl.uncommented ClassDecl.valueConstructor ClassDecl.ofRecord bare
    simp only [List.map_map, List.flatMap_map]
    rfl
  let h := r.header layout options
  exact congrArg (fun lines => h.openingLines ++ lines ++ h.closingCode) hbody

/-- **The code of a record's header is that of the record without documentation.** -/
theorem code_bare (r : Record) (options : Options) : r.bare.code options = r.code options := by
  rw [code, exactLayout_bare, uncommented_bare, code]

end Record

/-! ## Whatever compiles -/

namespace Schema

/-- A schema without lines and comments. -/
def bare (s : Schema) : Schema := ⟨s.records.map Record.bare⟩

/-- The documentation of all records is hidden. -/
def DocsHidden (s : Schema) : Prop := ∀ r ∈ s.records, r.DocsHidden

/-- The documentation of all records is contained. -/
def DocsContained (s : Schema) : Prop := ∀ r ∈ s.records, r.DocsContained

instance (s : Schema) : Decidable s.DocsContained :=
  inferInstanceAs (Decidable (∀ r ∈ s.records, r.DocsContained))

end Schema

/-- Documentation that is contained is hidden. -/
theorem Schema.DocsContained.hidden {s : Schema} (h : s.DocsContained) : s.DocsHidden :=
  fun r hr => (h r hr).hidden

namespace HeaderFile

/-- What is left of the source of a header without comments and blank lines. -/
def codeLines (file : HeaderFile) : List (List Char) := Text.codeLines file.source.toList

namespace OfRecord

variable {file : HeaderFile} {r : Record} {options : Options}

theorem layout_eq (h : file.OfRecord r options) : file.layout = r.exactLayout :=
  Record.eq_of_layout_eq_ok (fun f hf => (h.wellFormed.fields f hf).type) h.layout

/-- **A header is the code of its record exactly when its documentation is hidden.** -/
theorem codeLines_eq_iff (h : file.OfRecord r options) (hscope : options.invalidScope? = none) :
    file.codeLines = r.code options ↔ r.DocsHidden := by
  have hwoven := Record.woven_header h.wellFormed h.names hscope
  rw [codeLines, h.source, Header.toList_render, Record.code, ← h.layout_eq,
    ← Record.codeOf_blocks_iff, ← hwoven.codeOf_eq_iff]
  rfl

end OfRecord

end HeaderFile

/-- **Headers are the code of their records exactly when the documentation is hidden.** -/
theorem map_codeLines_eq_iff {text : String} {options : Options} {c : Compilation}
    (h : compile text options = .ok c) (hscope : options.invalidScope? = none) :
    c.files.map HeaderFile.codeLines = c.schema.records.map (·.code options)
      ↔ c.schema.DocsHidden := by
  have hfiles := compiled_files h
  unfold Schema.DocsHidden
  generalize c.schema.records = records at hfiles ⊢
  generalize c.files = files at hfiles ⊢
  induction hfiles with
  | nil => exact iff_of_true rfl nofun
  | cons hfile _ ih =>
    rw [List.map_cons, List.map_cons, List.cons.injEq, List.forall_mem_cons]
    exact and_congr (hfile.codeLines_eq_iff hscope) ih

/-- Records that are the same without documentation have the same code. -/
theorem Schema.map_code_eq_of_bare {s s' : Schema} (h : s.bare = s'.bare) (options : Options) :
    s.records.map (·.code options) = s'.records.map (·.code options) := by
  have hbare : ∀ s : Schema,
      s.records.map (·.code options) = s.bare.records.map (·.code options) := fun s => by
    rw [Schema.bare, List.map_map]
    exact List.map_congr_left fun r _ => (r.code_bare options).symm
  rw [hbare s, hbare s', h]

/-- **Documentation does not change code** as long as no comment ends the comment that it
is put in. Whatever compiles, with any options that are valid: where two texts have the
same schema but for comments and lines, their headers are then the same code. More
exactly, they are the same as those with hidden documentation just when theirs is hidden
too. -/
theorem code_eq_iff_docsHidden {text text' : String} {options : Options} {c c' : Compilation}
    (h : compile text options = .ok c) (h' : compile text' options = .ok c')
    (hscope : options.invalidScope? = none) (hbare : c.schema.bare = c'.schema.bare) :
    (c.schema.DocsContained → c'.schema.DocsContained →
        c.files.map HeaderFile.codeLines = c'.files.map HeaderFile.codeLines)
      ∧ (c'.schema.DocsHidden →
        (c.files.map HeaderFile.codeLines = c'.files.map HeaderFile.codeLines
          ↔ c.schema.DocsHidden)) := by
  have hiff : c'.schema.DocsHidden →
      (c.files.map HeaderFile.codeLines = c'.files.map HeaderFile.codeLines
        ↔ c.schema.DocsHidden) := fun hhidden => by
    rw [(map_codeLines_eq_iff h' hscope).2 hhidden, ← Schema.map_code_eq_of_bare hbare,
      map_codeLines_eq_iff h hscope]
  exact ⟨fun hdocs hdocs' => (hiff hdocs'.hidden).2 hdocs.hidden, hiff⟩

/-- A record without documentation. -/
def plainRecord : Record := ⟨"A", 1, [], [⟨"x", 2, [], .scalar, .ofPlain "u8" "uint8_t" 1, false⟩]⟩

theorem code_eq_of_two_docs :
    ∃ c c', compile "\"First /* in part.\"\nA:\n  x u8\n" { scope := some "demo::a" } = .ok c
      ∧ compile "\nA:\n  \"Second.\"\n  x u8\n" { scope := some "demo::a" } = .ok c'
      ∧ c.files.map HeaderFile.codeLines = c'.files.map HeaderFile.codeLines := by
  obtain ⟨c, hc, hdocs, hbare⟩ : ∃ c, compile "\"First /* in part.\"\nA:\n  x u8\n"
      { scope := some "demo::a" } = .ok c
        ∧ c.schema.DocsContained ∧ c.schema.bare = ⟨[plainRecord.bare]⟩ :=
    exists_compile_eq_ok (by decide +kernel)
  obtain ⟨c', hc', hdocs', hbare'⟩ : ∃ c, compile "\nA:\n  \"Second.\"\n  x u8\n"
      { scope := some "demo::a" } = .ok c
        ∧ c.schema.DocsContained ∧ c.schema.bare = ⟨[plainRecord.bare]⟩ :=
    exists_compile_eq_ok (by decide +kernel)
  have hboth := code_eq_iff_docsHidden hc hc' (by decide +kernel) (hbare.trans hbare'.symm)
  exact ⟨c, c', hc, hc', hboth.1 hdocs hdocs'⟩

/-- Documentation that ends its comment and begins another brings what is in between into
the code. -/
theorem code_ne_of_stray_docs :
    ∃ c c', compile "\"*/ int stray; /*\"\nA:\n  x u8\n" {} = .ok c
      ∧ compile "A:\n  x u8\n" {} = .ok c' ∧ c.schema.bare = c'.schema.bare
      ∧ c.files.map HeaderFile.codeLines ≠ c'.files.map HeaderFile.codeLines := by
  obtain ⟨c, hc, hdocs, hbare⟩ : ∃ c, compile "\"*/ int stray; /*\"\nA:\n  x u8\n" {} = .ok c
      ∧ (∃ r ∈ c.schema.records, codeOf (docBlock "" [] r.docs) ≠ [])
      ∧ c.schema.bare = ⟨[plainRecord.bare]⟩ :=
    exists_compile_eq_ok (by decide +kernel)
  obtain ⟨c', hc', hdocs', hbare'⟩ : ∃ c, compile "A:\n  x u8\n" {} = .ok c
      ∧ c.schema.DocsContained ∧ c.schema.bare = ⟨[plainRecord.bare]⟩ :=
    exists_compile_eq_ok (by decide +kernel)
  have hsame := hbare.trans hbare'.symm
  refine ⟨c, c', hc, hc', hsame, fun heq => ?_⟩
  rw [(map_codeLines_eq_iff hc' rfl).2 hdocs'.hidden, ← Schema.map_code_eq_of_bare hsame,
    map_codeLines_eq_iff hc rfl] at heq
  obtain ⟨r, hr, hcode⟩ := hdocs
  exact hcode (heq r hr).docs

end FlatRecord
