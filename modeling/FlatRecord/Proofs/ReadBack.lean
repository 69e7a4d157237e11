import FlatRecord.Proofs.Documentation
import FlatRecord.Proofs.RoundTrip
import FlatRecord.Proofs.SourceReading

/-!
# The layout in the source

What a header says of the layout of its record is taken from two places. The constants
come from the slots of the layout, and the calls on the buffer, which name constants,
from the fields. Both can be read off the source of a header
(`HeaderFile.sourceLayout?`), and they are what was put in and agree with each other:
for every text that compiles, with any namespace that can be opened, the constants tell
the layout of the record, and the functions of each field go to the constant of that
field (`HeaderFile.ReadsBack`).

To read the source, one line has to be found, the one that opens the private part of
the class. It is the only one of its kind, although there are comments in front of it
that hold any text: a comment is of one line, and in a comment block this line begins
with a star. So comments tell nothing, nor do any other lines but the constants and the
calls (`Tells`).
-/

namespace FlatRecord

/-! ## What lines tell -/

/-- The line that opens the private part of a class. -/
def privateLine : String := "private:"

/-- **What lines tell**, none of which opens a private part: the places that are read
off them and the calls. -/
structure Tells (lines : List String) (places : List Place) (calls : List BufferCall) :
    Prop where
  /-- No line opens a private part. -/
  unopened : privateLine.toList ∉ lines.map String.toList
  /-- The places on them. -/
  places : (lines.map String.toList).filterMap readPlace? = places
  /-- The calls on them. -/
  calls : (lines.map String.toList).filterMap readCall? = calls

/-- A line that tells nothing. -/
def IsSilent (l : String) : Prop :=
  l ≠ privateLine ∧ readPlace? l.toList = none ∧ readCall? l.toList = none

instance (l : String) : Decidable (IsSilent l) :=
  inferInstanceAs (Decidable (_ ∧ _ ∧ _))

namespace IsSilent

variable {l : String} {c : Char} {cs : List Char}

theorem of_indented (h : l.toList = ' ' :: cs) (hplace : readPlace? l.toList = none)
    (hcall : readCall? l.toList = none) : IsSilent l := by
  refine ⟨?_, hplace, hcall⟩
  rintro rfl
  exact absurd (List.cons.inj h).1 (by decide)

/-- A line that is not indented tells nothing, unless it opens a private part. -/
theorem of_cons (h : l.toList = c :: cs) (hprivate : c ≠ 'p') (hspace : c ≠ ' ') :
    IsSilent l := by
  refine ⟨?_, ?_⟩
  · rintro rfl
    exact hprivate (List.cons.inj h).1.symm
  · rw [h]
    exact readLine_cons hspace cs

theorem append {front : String} (h : front.toList.head? = some c) (hprivate : c ≠ 'p')
    (hspace : c ≠ ' ') (more : String) : IsSilent (front ++ more) := by
  obtain ⟨cs, hfront⟩ := List.head?_eq_some_iff.1 h
  refine of_cons (?_ : _ = c :: (cs ++ more.toList)) hprivate hspace
  rw [String.toList_append, hfront, List.cons_append]

end IsSilent

namespace Tells

variable {l : String} {lines lines' : List String} {places places' : List Place}
  {calls calls' : List BufferCall}

theorem nil : Tells [] [] [] := ⟨List.not_mem_nil, rfl, rfl⟩

theorem append (h : Tells lines places calls) (h' : Tells lines' places' calls') :
    Tells (lines ++ lines') (places ++ places') (calls ++ calls') := by
  refine ⟨?_, ?_, ?_⟩
  · rw [List.map_append, List.mem_append, not_or]
    exact ⟨h.unopened, h'.unopened⟩
  · rw [List.map_append, List.filterMap_append, h.places, h'.places]
  · rw [List.map_append, List.filterMap_append, h.calls, h'.calls]

theorem flatMap {α : Type} {xs : List α} {f : α → List String} {calls : α → List BufferCall}
    (h : ∀ x ∈ xs, Tells (f x) [] (calls x)) : Tells (xs.flatMap f) [] (xs.flatMap calls) := by
  induction xs with
  | nil => exact .nil
  | cons x xs ih =>
    obtain ⟨hx, hxs⟩ := List.forall_mem_cons.1 h
    rw [List.flatMap_cons, List.flatMap_cons]
    exact hx.append (ih hxs)

/-- A line that tells a place tells no more than it. -/
theorem of_place {place : Place} (h : readPlace? l.toList = some place) :
    Tells [l] [place] [] := by
  refine ⟨?_, ?_, ?_⟩
  · rw [List.map_singleton, List.mem_singleton]
    intro heq
    rw [← heq] at h
    cases h
  · simp [h]
  · simp [readCall?_of_readPlace? h]

/-- A line that makes a call tells no more than it. -/
theorem of_call {call : BufferCall} (h : readCall? l.toList = some call) :
    Tells [l] [] [call] := by
  refine ⟨?_, ?_, ?_⟩
  · rw [List.map_singleton, List.mem_singleton]
    intro heq
    rw [← heq] at h
    cases h
  · simp [readPlace?_of_readCall? h]
  · simp [h]

theorem map_place {α : Type} {xs : List α} {f : α → String} {place : α → Place}
    (h : ∀ x ∈ xs, readPlace? (f x).toList = some (place x)) :
    Tells (xs.map f) (xs.map place) [] := by
  induction xs with
  | nil => exact .nil
  | cons x xs ih =>
    obtain ⟨hx, hxs⟩ := List.forall_mem_cons.1 h
    exact (of_place hx).append (ih hxs)

theorem map_call {α : Type} {xs : List α} {f : α → String} {call : α → BufferCall}
    (h : ∀ x ∈ xs, readCall? (f x).toList = some (call x)) :
    Tells (xs.map f) [] (xs.map call) := by
  induction xs with
  | nil => exact .nil
  | cons x xs ih =>
    obtain ⟨hx, hxs⟩ := List.forall_mem_cons.1 h
    exact (of_call hx).append (ih hxs)

theorem silent (h : ∀ l ∈ lines, IsSilent l) : Tells lines [] [] := by
  refine ⟨?_, ?_, ?_⟩
  · intro hmem
    obtain ⟨l, hl, heq⟩ := List.mem_map.1 hmem
    exact (h l hl).1 (String.toList_inj.1 heq)
  · rw [List.filterMap_eq_nil_iff, List.forall_mem_map]
    exact fun l hl => (h l hl).2.1
  · rw [List.filterMap_eq_nil_iff, List.forall_mem_map]
    exact fun l hl => (h l hl).2.2

end Tells

/-! ## Comments -/

/-- **A comment block tells nothing**, whatever its text. -/
theorem tells_docBlock {indent : String} (h : indent = "" ∨ indent = memberIndent)
    (heading docs : List String) : Tells (docBlock indent heading docs) [] [] := by
  have hdoc : ∀ text, IsSilent (docLine indent text) := by
    intro text
    obtain ⟨more, hline⟩ := exists_docLine indent text
    obtain rfl | rfl := h
    · exact .of_indented hline (by rw [hline]; rfl) (by rw [hline]; rfl)
    · exact .of_indented hline (by rw [hline]; rfl) (by rw [hline]; rfl)
  have hends : IsSilent (indent ++ "/**") ∧ IsSilent (indent ++ " */") := by
    obtain rfl | rfl := h
    · decide
    · decide
  unfold docBlock
  split
  · exact .nil
  · refine .silent ?_
    rw [List.forall_mem_append, List.forall_mem_cons, List.forall_mem_map,
      List.forall_mem_singleton]
    exact ⟨⟨hends.1, fun text _ => hdoc text⟩, hends.2⟩

/-! ## Functions -/

namespace Field

/-- The calls of the functions of a field. -/
def calls (f : Field) (allMutable : Bool) : List BufferCall :=
  ⟨some f.name, f.bufferFunction, offsetConstant f.name⟩
    :: if f.hasSetter allMutable then
        [⟨some f.name, "assign_buffer", offsetConstant f.name⟩]
      else []

theorem tells_accessor {f : Field} (h : f.WellFormed) (allMutable : Bool) :
    Tells (f.accessor allMutable).lines [] (f.calls allMutable) := by
  have hgetter : Tells (f.getter.lines f.docs) []
      [⟨some f.name, f.bufferFunction, offsetConstant f.name⟩] :=
    (tells_docBlock (.inr rfl) [] f.docs).append (.of_call (readCall?_getter h))
  have hsetter : Tells (f.setter.lines f.docs) []
      [⟨some f.name, "assign_buffer", offsetConstant f.name⟩] :=
    (tells_docBlock (.inr rfl) ["(Setter)"] f.docs).append (.of_call (readCall?_setter h))
  unfold Accessor.lines accessor calls
  dsimp only
  split
  · exact hgetter.append hsetter
  · exact hgetter.append .nil

end Field

namespace Record

variable {r : Record}

/-- **The calls on the buffer that the class of a record makes**: the constructor stores
all fields in their order, and then come the functions of each field. -/
def calls (r : Record) (allMutable : Bool) : List BufferCall :=
  r.fields.map (fun f => ⟨none, "assign_buffer", offsetConstant f.name⟩)
    ++ r.fields.flatMap (Field.calls · allMutable)

/-- A member that begins with the name of the record tells nothing. -/
theorem isSilent_member (h : r.WellFormed) (hfree : r.NamesFree) {l : String} {c : Char}
    (hc : Text.isIdentifierPart c = false)
    (hl : ∃ more, l.toList = "    ".toList ++ (r.name.toList ++ c :: more)) : IsSilent l := by
  obtain ⟨more, hline⟩ := hl
  have hword : ∀ w ∈ ["static", "inline"], r.name.toList ≠ w.toList := by
    have hkeywords : ∀ w ∈ ["static", "inline"], isReserved w = true := by decide +kernel
    intro w hw heq
    have hreserved := hkeywords w hw
    rw [← String.toList_inj.1 heq, hfree.record] at hreserved
    cases hreserved
  obtain ⟨hplace, hcall⟩ := readLine_member h.name (hword "static" (by decide))
    (hword "inline" (by decide)) hc more
  exact .of_indented hline (hline ▸ hplace) (hline ▸ hcall)

theorem tells_valueConstructor (h : r.WellFormed) (hfree : r.NamesFree) (layout : Layout)
    (allMutable : Bool) :
    Tells (ClassDecl.ofRecord r layout allMutable).valueConstructor []
      (r.fields.map fun f => ⟨none, "assign_buffer", offsetConstant f.name⟩) := by
  have hstores : Tells (r.fields.map fun f => "        " ++ f.store.render) []
      (r.fields.map fun f => ⟨none, "assign_buffer", offsetConstant f.name⟩) := by
    refine .map_call fun f hf => ?_
    have hconstant : Text.isIdentifier f.store.constant.toList = true :=
      f.constant_store ▸ isIdentifier_offsetConstant (h.fields f hf).name
    rw [readCall?_store hconstant, f.constant_store]
  have hhead : ∀ parameters : String, IsSilent ("    " ++ r.name ++ "(" ++ parameters ++ ")") := by
    intro parameters
    refine isSilent_member h hfree (by decide : Text.isIdentifierPart '(' = false) ?_
    simp only [String.toList_append, List.append_assoc]
    exact ⟨_, rfl⟩
  have hfixed : ∀ l ∈ ["        : Record\x7b\x7d", "    \x7b", "        alloc(buffer_size);"],
      IsSilent l := by decide +kernel
  have hopen := Tells.silent (List.forall_mem_cons.2 ⟨hhead (", ".intercalate
    ((ClassDecl.ofRecord r layout allMutable).parameters.map Parameter.render)), hfixed⟩)
  have hclose : Tells ["    \x7d"] [] [] := .silent (by decide +kernel)
  have hall := (hopen.append hstores).append hclose
  simp only [List.nil_append, List.append_nil] at hall
  unfold ClassDecl.valueConstructor
  show Tells (_ ++ (r.fields.map Field.store).map _ ++ _) [] _
  rw [List.map_map]
  exact hall

theorem tells_commonMembers (h : r.WellFormed) (hfree : r.NamesFree) :
    Tells (ClassDecl.commonMembers r.name) [] [] := by
  refine .silent ?_
  unfold ClassDecl.commonMembers
  simp only [List.forall_mem_cons, List.not_mem_nil, false_imp_iff, implies_true, and_true]
  refine ⟨?stream, ?bytes, ?copy, ?move, ?destroy, ?assignCopy, ?_, ?_, ?_, ?_, ?assignMove,
    ?_, ?_, ?_, ?_, ?_⟩
  case destroy =>
    have hline : ("    ~" ++ r.name ++ "() noexcept \x7b\x7d").toList
        = "    ~".toList ++ (r.name.toList ++ "() noexcept \x7b\x7d".toList) := by
      simp only [String.toList_append, List.append_assoc]
    exact .of_indented hline (by rw [hline]; rfl) (by rw [hline]; rfl)
  case stream | bytes | copy | move =>
    refine isSilent_member h hfree (by decide : Text.isIdentifierPart '(' = false) ?_
    simp only [String.toList_append, List.append_assoc]
    exact ⟨_, rfl⟩
  case assignCopy | assignMove =>
    refine isSilent_member h hfree (by decide : Text.isIdentifierPart ' ' = false) ?_
    simp only [String.toList_append, List.append_assoc]
    exact ⟨_, rfl⟩
  all_goals decide +kernel

end Record

/-! ## Headers -/

namespace ClassDecl

/-- The lines of a class up to the functions of its fields. -/
def frontLines (c : ClassDecl) : List String :=
  docBlock "" [] c.docs
    ++ ["class " ++ c.name ++ " : public Record", "\x7b", "public:"]
    ++ c.valueConstructor
    ++ commonMembers c.name

/-- The lines of a class up to the one that opens its private part. -/
def publicLines (c : ClassDecl) : List String :=
  docBlock "" [] c.docs
    ++ ["class " ++ c.name ++ " : public Record", "\x7b", "public:"]
    ++ c.valueConstructor
    ++ commonMembers c.name
    ++ c.accessors.flatMap Accessor.lines
    ++ [""]

theorem lines_eq (c : ClassDecl) :
    c.lines = c.publicLines ++ privateLine :: (c.layoutLines ++ ["\x7d;"]) := by
  unfold lines publicLines privateLine
  simp only [List.append_assoc, List.cons_append, List.nil_append]

end ClassDecl

namespace Record

variable {r : Record}

theorem tells_frontLines (h : r.WellFormed) (hfree : r.NamesFree) (layout : Layout)
    (allMutable : Bool) :
    Tells (ClassDecl.ofRecord r layout allMutable).frontLines []
      (r.fields.map fun f => ⟨none, "assign_buffer", offsetConstant f.name⟩) := by
  have hdocs : Tells (docBlock "" [] r.docs) [] [] := tells_docBlock (.inl rfl) [] r.docs
  have hhead : Tells ["class " ++ r.name ++ " : public Record", "\x7b", "public:"] [] [] := by
    refine .silent (List.forall_mem_cons.2 ⟨?_, by decide +kernel⟩)
    rw [String.append_assoc]
    exact .append (by rfl : _ = some 'c') (by decide) (by decide) _
  have hall := ((hdocs.append hhead).append (tells_valueConstructor h hfree layout
    allMutable)).append (tells_commonMembers h hfree)
  simp only [List.nil_append, List.append_nil] at hall
  exact hall

theorem tells_publicLines (h : r.WellFormed) (hfree : r.NamesFree) (layout : Layout)
    (allMutable : Bool) :
    Tells (ClassDecl.ofRecord r layout allMutable).publicLines [] (r.calls allMutable) := by
  have haccessors : Tells ((r.fields.map (Field.accessor · allMutable)).flatMap Accessor.lines) []
      (r.fields.flatMap (Field.calls · allMutable)) := by
    rw [List.flatMap_map]
    exact .flatMap fun f hf => Field.tells_accessor (h.fields f hf) allMutable
  have hblank : Tells [""] [] [] := .silent (by decide)
  have hall := ((tells_frontLines h hfree layout allMutable).append haccessors).append hblank
  simp only [List.append_nil] at hall
  exact hall

/-- The constants of a class tell its layout. -/
theorem tells_layoutLines {layout : Layout}
    (h : ∀ s ∈ layout.slots, Text.isIdentifier s.name.toList = true) (allMutable : Bool) :
    Tells (ClassDecl.ofRecord r layout allMutable).layoutLines
      (layout.slots.map Slot.place) [] := by
  have hconstants : Tells ((layout.slots.map Slot.constant).map OffsetConstant.render)
      (layout.slots.map Slot.place) [] := by
    rw [List.map_map]
    exact .map_place fun s hs => readPlace?_render (h s hs)
  have hsize : Tells ["    static constexpr size_t buffer_size = " ++ layout.bufferSize.repr ++ ";"]
      [] [] := by
    have hline : ∃ cs, ("    static constexpr size_t buffer_size = " ++ layout.bufferSize.repr
        ++ ";").toList = "    static".toList ++ cs := by
      simp only [String.toList_append, List.append_assoc]
      exact ⟨_, rfl⟩
    obtain ⟨cs, hline⟩ := hline
    refine .silent (List.forall_mem_singleton.2 ?_)
    exact .of_indented hline (readSize?_render _).1 (by rw [hline]; rfl)
  rw [← List.append_nil (layout.slots.map Slot.place)]
  exact hconstants.append hsize

theorem readPlaces?_layoutLines {layout : Layout}
    (h : ∀ s ∈ layout.slots, Text.isIdentifier s.name.toList = true) (allMutable : Bool)
    (rest : List (List Char)) :
    readPlaces? ((ClassDecl.ofRecord r layout allMutable).layoutLines.map String.toList ++ rest)
      = some (layout.slots.map Slot.place, layout.bufferSize) := by
  rw [← readPlaces?_layout h layout.bufferSize rest]
  show readPlaces? (((layout.slots.map Slot.constant).map OffsetConstant.render ++ [_]).map
    String.toList ++ rest) = _
  rw [List.map_append, List.map_map, List.map_map, List.append_assoc]
  rfl

end Record

namespace Header

variable {h : Header}

theorem lines_eq (h : Header) :
    h.lines = (h.openingLines ++ h.body.publicLines)
      ++ privateLine :: (h.body.layoutLines ++ (["\x7d;"] ++ h.closingLines)) := by
  unfold lines
  rw [ClassDecl.lines_eq]
  simp only [List.append_assoc, List.cons_append]

theorem tells_openingLines : Tells h.openingLines [] [] := by
  refine .silent ?_
  unfold openingLines
  simp only [List.forall_mem_append]
  refine ⟨⟨⟨?guard, by decide +kernel⟩, ?scope⟩, by decide +kernel⟩
  case guard =>
    cases h.macroName with
    | none =>
      show ∀ l ∈ ["#pragma once"], IsSilent l
      decide +kernel
    | some m =>
      simp only [List.forall_mem_cons]
      exact ⟨.append (by rfl : _ = some '#') (by decide) (by decide) m,
        .append (by rfl : _ = some '#') (by decide) (by decide) m, by decide +kernel, nofun⟩
  case scope =>
    cases h.scope with
    | none => exact nofun
    | some s =>
      simp only [List.forall_mem_cons]
      exact ⟨.append (by rfl : _ = some 'n') (by decide) (by decide) s, by decide +kernel, nofun⟩

theorem tells_closingLines : Tells h.closingLines [] [] := by
  refine .silent ?_
  unfold closingLines
  rw [List.forall_mem_append]
  constructor
  · cases h.scope with
    | none => exact nofun
    | some s =>
      rw [List.forall_mem_singleton, String.append_assoc]
      exact .append (by rfl : _ = some '\x7d') (by decide) (by decide) _
  · cases h.macroName with
    | none => exact nofun
    | some m =>
      show ∀ l ∈ ["", "#endif"], IsSilent l
      decide +kernel

end Header

/-! ## One line each -/

/-- The pieces of a text between line feeds are its lines, when none of them holds any,
and the end. -/
theorem pieces_textOf {lines : List String} (h : FitLines lines) :
    Text.pieces (· == '\n') (textOf lines) = lines.map String.toList ++ [[]] := by
  induction lines with
  | nil => rfl
  | cons l lines ih =>
    obtain ⟨hl, hlines⟩ := List.forall_mem_cons.1 h
    have hpiece : Text.pieces (· == '\n') l.toList = [l.toList] :=
      Text.pieces_eq_singleton fun c hc => beq_eq_false_iff_ne.2 (ne_of_mem_of_not_mem hc hl)
    rw [textOf_cons, Text.pieces_append_cons rfl, hpiece, ih hlines]
    rfl

/-- A line of one line is one of the pieces, whatever the others hold. -/
theorem mem_pieces_textOf {lines : List String} {l : String} (hl : l ∈ lines)
    (hone : '\n' ∉ l.toList) : l.toList ∈ Text.pieces (· == '\n') (textOf lines) := by
  have hpiece : Text.pieces (· == '\n') l.toList = [l.toList] :=
    Text.pieces_eq_singleton fun c hc => beq_eq_false_iff_ne.2 (ne_of_mem_of_not_mem hc hone)
  obtain ⟨before, after, rfl⟩ := List.append_of_mem hl
  induction before with
  | nil =>
    rw [List.nil_append, textOf_cons, Text.pieces_append_cons rfl, hpiece]
    exact List.mem_cons_self
  | cons first before ih =>
    rw [List.cons_append, textOf_cons, Text.pieces_append_cons rfl]
    exact List.mem_append_right _ (ih (List.mem_append_right _ List.mem_cons_self))

namespace FitLines

variable {lines lines' docs : List String}

theorem append (h : FitLines lines) (h' : FitLines lines') : FitLines (lines ++ lines') :=
  List.forall_mem_append.2 ⟨h, h'⟩

theorem of_isCode (h : ∀ l ∈ lines, IsCode l) : FitLines lines :=
  fun l hl hmem => (h l hl _ hmem).2 rfl

theorem docBlock {indent : String} {heading : List String} (hindent : '\n' ∉ indent.toList)
    (hheading : FitLines heading) (h : FitLines docs) :
    FitLines (docBlock indent heading docs) := by
  have hends : '\n' ∉ (indent ++ "/**").toList ∧ '\n' ∉ (indent ++ " */").toList := by
    rw [String.toList_append, String.toList_append, List.mem_append, List.mem_append, not_or,
      not_or]
    exact ⟨⟨hindent, by decide⟩, hindent, by decide⟩
  have hdoc : ∀ d ∈ heading ++ docs, '\n' ∉ (docLine indent d).toList := by
    intro d hd hmem
    have hwhole := (docLine_isPrefix indent d).subset hmem
    rw [String.toList_append, String.toList_append, List.mem_append, List.mem_append] at hwhole
    obtain (hwhole | hwhole) | hwhole := hwhole
    · exact hindent hwhole
    · exact absurd hwhole (by decide)
    · exact hheading.append h d hd hwhole
  unfold FlatRecord.docBlock
  split
  · exact nofun
  · refine .append (List.forall_mem_cons.2 ⟨hends.1, ?_⟩) (List.forall_mem_singleton.2 hends.2)
    exact List.forall_mem_map.2 hdoc

end FitLines

theorem Accessor.fitLines {a : Accessor} (h : ∀ l ∈ a.uncommented, IsCode l)
    (hdocs : FitLines a.docs) : FitLines a.lines := by
  rw [uncommented, List.forall_mem_cons] at h
  have hblock : ∀ {heading : List String}, FitLines heading →
      FitLines (docBlock memberIndent heading a.docs) := fun hheading =>
    .docBlock (by decide) hheading hdocs
  have hgetter : FitLines (a.getter.lines a.docs) :=
    (hblock (List.forall_mem_nil _)).append (.of_isCode (List.forall_mem_singleton.2 h.1))
  refine hgetter.append ?_
  cases hs : a.setter with
  | none => exact List.forall_mem_nil _
  | some s =>
    rw [hs] at h
    exact (hblock (List.forall_mem_singleton.2 (by decide +kernel))).append (.of_isCode h.2)

theorem OffsetConstant.not_newline_render {k : OffsetConstant} (h : IsCode k.uncommented) :
    '\n' ∉ k.render.toList := by
  have hcode : '\n' ∉ k.uncommented.toList := fun hmem => (h _ hmem).2 rfl
  have hpadding : '\n' ∉ k.padding.repr.toList := fun hmem =>
    (Text.isPlain_iff.1 ((@MadeOf.of_nat [] k.padding).plain _ hmem)).2 rfl
  rw [k.render_eq]
  split
  · exact hcode
  · simp only [String.toList_append, List.mem_append, not_or]
    exact ⟨⟨⟨hcode, by decide⟩, ⟨by decide, hpadding⟩, by decide⟩, by decide⟩

/-- The lines of a class are one line each when its comments are. -/
theorem ClassDecl.fitLines {c : ClassDecl} (h : ∀ l ∈ c.uncommented, IsCode l)
    (hdocs : FitLines c.docs) (hfields : ∀ a ∈ c.accessors, FitLines a.docs) :
    FitLines c.lines := by
  unfold uncommented at h
  simp only [List.forall_mem_append] at h
  obtain ⟨⟨⟨⟨⟨⟨⟨hhead, hvalues⟩, hcommon⟩, haccessors⟩, hprivate⟩, hconstants⟩, hsize⟩, hend⟩ := h
  have hblock : FitLines (docBlock "" [] c.docs) := .docBlock (by decide) nofun hdocs
  have haccessors : FitLines (c.accessors.flatMap Accessor.lines) :=
    List.forall_mem_flatMap.2 fun a ha =>
      a.fitLines (fun l hl => haccessors l (List.mem_flatMap.2 ⟨a, ha, hl⟩)) (hfields a ha)
  have hconstants : FitLines (c.constants.map OffsetConstant.render) :=
    List.forall_mem_map.2 fun k hk => k.not_newline_render (hconstants _ (List.mem_map_of_mem hk))
  unfold lines layoutLines
  exact ((((((hblock.append (.of_isCode hhead)).append (.of_isCode hvalues)).append
    (.of_isCode hcommon)).append haccessors).append (.of_isCode hprivate)).append
    (hconstants.append (.of_isCode hsize))).append (.of_isCode hend)

/-- The lines of a header are one line each when the comments of its class are. -/
theorem Header.fitLines {h : Header} (hguard : ∀ m ∈ h.macroName, IsCode m)
    (hscope : ∀ s ∈ h.scope, IsCode s) (hbody : ∀ l ∈ h.body.uncommented, IsCode l)
    (hdocs : FitLines h.body.docs) (hfields : ∀ a ∈ h.body.accessors, FitLines a.docs) :
    FitLines h.lines := by
  have hclosing : FitLines h.closingLines := by
    unfold closingLines
    refine .append ?_ ?_
    · cases hs : h.scope with
      | none => exact nofun
      | some s =>
        have hname : '\n' ∉ s.toList := fun hmem => (hscope s hs _ hmem).2 rfl
        refine List.forall_mem_singleton.2 ?_
        simp only [String.toList_append, List.mem_append, not_or]
        exact ⟨⟨by decide, hname⟩, by decide⟩
    · cases h.macroName with
      | none => exact nofun
      | some m =>
        show ∀ l ∈ ["", "#endif"], '\n' ∉ l.toList
        decide
  exact ((FitLines.of_isCode (isCode_openingLines hguard hscope)).append
    (ClassDecl.fitLines hbody hdocs hfields)).append hclosing

/-! ## Reading a source -/

/-- **What a source tells of a layout.** -/
structure SourceLayout where
  /-- The places of the fields, as its constants tell them. -/
  places : List Place
  /-- The size of the buffer. -/
  bufferSize : Nat
  /-- The calls on the buffer. -/
  calls : List BufferCall
deriving DecidableEq, Repr

namespace HeaderFile

/-- The lines of a source: what stands between its line feeds. -/
def sourceLines (file : HeaderFile) : List (List Char) :=
  Text.pieces (· == '\n') file.source.toList

/-- **What the source of a file tells of the layout**: the constants behind the line that
opens the private part, and the calls on any line. -/
def sourceLayout? (file : HeaderFile) : Option SourceLayout := do
  let behind := (file.sourceLines.dropWhile (· != privateLine.toList)).drop 1
  let (places, bufferSize) ← readPlaces? behind
  return ⟨places, bufferSize, file.sourceLines.filterMap readCall?⟩

/-- **The layout can be read back from the source of a file.** -/
structure ReadsBack (file : HeaderFile) (r : Record) (options : Options) : Prop where
  /-- The layout of the file is that of the record. -/
  computed : r.layout = .ok file.layout
  /-- Its slots are those of the fields, in their order. -/
  order : file.layout.slots.map Slot.name = r.fields.map Field.name
  /-- One line of the source opens the private part. -/
  private_once : file.sourceLines.count privateLine.toList = 1
  /-- The source tells the layout, and calls on the buffer for each field at the constant
  of the field. -/
  sourceLayout : file.sourceLayout?
    = some ⟨file.layout.slots.map Slot.place, file.layout.bufferSize, r.calls options.allMutable⟩
  /-- There are no other constants of places. -/
  declared : file.sourceLines.filterMap readPlace? = file.layout.slots.map Slot.place
  /-- Each of them is declared once. -/
  declared_once : (file.layout.slots.map (offsetConstant ·.name)).Nodup
  /-- The constants that are used are those that are declared. -/
  used_iff : ∀ constant, (∃ call ∈ r.calls options.allMutable, call.argument = constant)
    ↔ constant ∈ file.layout.slots.map (offsetConstant ·.name)

end HeaderFile

section Reading

variable {front back : List String} {places : List Place} {calls : List BufferCall}

/-- **The line between two parts is found**, and the places and calls are those of either
part. -/
theorem read_around_privateLine (hfront : Tells front [] calls) (hback : Tells back places []) :
    let lines := (front ++ privateLine :: back).map String.toList ++ [[]]
    lines.count privateLine.toList = 1
      ∧ (lines.dropWhile (· != privateLine.toList)).drop 1 = back.map String.toList ++ [[]]
      ∧ lines.filterMap readPlace? = places ∧ lines.filterMap readCall? = calls := by
  intro lines
  have hlines : lines = front.map String.toList
      ++ privateLine.toList :: (back.map String.toList ++ [[]]) := by
    show (front ++ privateLine :: back).map String.toList ++ [[]] = _
    rw [List.map_append, List.map_cons, List.append_assoc, List.cons_append]
  have hdrop : ∀ l ∈ front.map String.toList, (l != privateLine.toList) = true := fun l hl =>
    bne_iff_ne.2 (ne_of_mem_of_not_mem hl hfront.unopened)
  rw [hlines]
  refine ⟨?_, ?_, ?_, ?_⟩
  · rw [List.count_append, List.count_cons_self, List.count_append,
      List.count_eq_zero_of_not_mem hfront.unopened, List.count_eq_zero_of_not_mem hback.unopened]
    rfl
  · rw [List.dropWhile_append_of_pos hdrop, List.dropWhile_cons_of_neg (by simp),
      List.drop_succ_cons, List.drop_zero]
  · have hnone : readPlace? privateLine.toList = none := rfl
    rw [List.filterMap_append, hfront.places, List.nil_append, List.filterMap_cons_none hnone,
      List.filterMap_append, hback.places]
    exact List.append_nil _
  · have hnone : readCall? privateLine.toList = none := rfl
    rw [List.filterMap_append, hfront.calls, List.filterMap_cons_none hnone,
      List.filterMap_append, hback.calls]
    exact List.append_nil _

end Reading

namespace Record

variable {r : Record}

/-- The functions of the fields use the constants of the fields. -/
theorem exists_mem_calls_iff (r : Record) (allMutable : Bool) (constant : String) :
    (∃ call ∈ r.calls allMutable, call.argument = constant)
      ↔ constant ∈ r.fields.map (offsetConstant ·.name) := by
  have hfield : ∀ f : Field, ∀ call ∈ f.calls allMutable,
      call.argument = offsetConstant f.name := by
    intro f
    unfold Field.calls
    rw [List.forall_mem_cons]
    refine ⟨rfl, ?_⟩
    split
    · exact List.forall_mem_singleton.2 rfl
    · exact List.forall_mem_nil _
  rw [List.mem_map]
  constructor
  · rintro ⟨call, hcall, rfl⟩
    rcases List.mem_append.1 hcall with hcall | hcall
    · obtain ⟨f, hf, rfl⟩ := List.mem_map.1 hcall
      exact ⟨f, hf, rfl⟩
    · obtain ⟨f, hf, hcall⟩ := List.mem_flatMap.1 hcall
      exact ⟨f, hf, (hfield f call hcall).symm⟩
  · rintro ⟨f, hf, rfl⟩
    exact ⟨_, List.mem_append_left _ (List.mem_map_of_mem hf), rfl⟩

end Record

/-! ## Whatever compiles -/

namespace HeaderFile.OfRecord

variable {file : HeaderFile} {r : Record} {options : Options}

/-- Slots are named by identifiers, as fields are. -/
theorem isIdentifier_slots (h : file.OfRecord r options) :
    ∀ s ∈ file.layout.slots, Text.isIdentifier s.name.toList = true := by
  intro s hs
  obtain ⟨f, hf, hname⟩ := List.mem_map.1 (h.names ▸ List.mem_map_of_mem hs)
  exact hname ▸ (h.wellFormed.fields f hf).name

theorem constants (h : file.OfRecord r options) :
    file.layout.slots.map (offsetConstant ·.name) = r.fields.map (offsetConstant ·.name) := by
  show file.layout.slots.map (offsetConstant ∘ Slot.name)
    = r.fields.map (offsetConstant ∘ Field.name)
  rw [← List.map_map, h.names, List.map_map]

/-- No line of a class is cut in two when its comments are of one line each. -/
theorem fitLines_body (h : file.OfRecord r options) (hdocs : FitLines r.docs)
    (hfields : ∀ f ∈ r.fields, FitLines f.docs) :
    FitLines (r.header file.layout options).body.lines := by
  have hcode : ∀ l ∈ (r.header file.layout options).body.uncommented, IsCode l := fun l hl =>
    .of_plain (Record.madeOf_uncommented h.wellFormed h.names options.allMutable l hl).plain
  exact ClassDecl.fitLines hcode hdocs (List.forall_mem_map.2 hfields)

/-- Whatever namespace is around it, a class stands in the source line by line. -/
theorem mem_sourceLines (h : file.OfRecord r options) (hdocs : FitLines r.docs)
    (hfields : ∀ f ∈ r.fields, FitLines f.docs) {l : String}
    (hl : l ∈ (r.header file.layout options).body.lines) : l.toList ∈ file.sourceLines := by
  rw [sourceLines, h.source, Header.toList_render]
  exact mem_pieces_textOf (List.mem_append_left _ (List.mem_append_right _ hl))
    (h.fitLines_body hdocs hfields l hl)

/-- No line of a header is cut in two when its comments are of one line each. -/
theorem sourceLines_eq (h : file.OfRecord r options) (hscope : options.invalidScope? = none)
    (hdocs : FitLines r.docs) (hfields : ∀ f ∈ r.fields, FitLines f.docs) :
    file.sourceLines = (r.header file.layout options).lines.map String.toList ++ [[]] := by
  obtain ⟨hguard, hscope, hbody⟩ := Record.isCode_header h.wellFormed h.names hscope
  have hfit : FitLines (r.header file.layout options).lines :=
    Header.fitLines hguard hscope hbody hdocs (List.forall_mem_map.2 hfields)
  rw [sourceLines, h.source, Header.toList_render, pieces_textOf hfit]

/-- **The file of a record reads back** when the comments of the record are of one line
each. -/
theorem readsBack (h : file.OfRecord r options) (hscope : options.invalidScope? = none)
    (hdocs : FitLines r.docs) (hfields : ∀ f ∈ r.fields, FitLines f.docs) :
    file.ReadsBack r options := by
  let header := r.header file.layout options
  let back := header.body.layoutLines ++ (["\x7d;"] ++ header.closingLines)
  -- the calls stand in front of the line that opens the private part, the constants behind it
  have hfront : Tells (header.openingLines ++ header.body.publicLines) []
      (r.calls options.allMutable) :=
    Header.tells_openingLines.append
      (Record.tells_publicLines h.wellFormed h.namesFree file.layout options.allMutable)
  have hback : Tells back (file.layout.slots.map Slot.place) [] := by
    have hlayout : Tells header.body.layoutLines (file.layout.slots.map Slot.place) [] :=
      Record.tells_layoutLines h.isIdentifier_slots options.allMutable
    have hend : Tells (["\x7d;"] ++ header.closingLines) [] [] :=
      .append (.silent (by decide +kernel)) Header.tells_closingLines
    rw [← List.append_nil (file.layout.slots.map Slot.place)]
    exact hlayout.append hend
  obtain ⟨honce, hbehind, hplaces, hcalls⟩ := read_around_privateLine hfront hback
  rw [← Header.lines_eq, ← h.sourceLines_eq hscope hdocs hfields] at honce hbehind hplaces hcalls
  have hread : readPlaces? (back.map String.toList ++ [[]])
      = some (file.layout.slots.map Slot.place, file.layout.bufferSize) := by
    rw [List.map_append, List.append_assoc]
    exact Record.readPlaces?_layoutLines h.isIdentifier_slots options.allMutable _
  refine ⟨h.layout, h.names, honce, ?layout, hplaces, ?different, ?used⟩
  case layout =>
    unfold sourceLayout?
    dsimp only
    rw [hbehind, hread, hcalls]
    rfl
  case different =>
    rw [h.constants]
    exact h.namesFree.nodup_constants
  case used =>
    rw [h.constants]
    exact r.exists_mem_calls_iff options.allMutable

end HeaderFile.OfRecord

/-- **The layout can be read back from the source**, for every text that compiles and
every namespace that can be opened: one line opens the private part of the class, the
constants behind it tell the layout of the record, in the order of its fields, and the
calls on the buffer go to the constants of the fields that they are for, which are the
constants that are declared, each once. -/
theorem compiled_files_readBack {text : String} {options : Options} {c : Compilation}
    (h : compile text options = .ok c) (hscope : options.invalidScope? = none) :
    List.Forall₂ (fun r file => file.ReadsBack r options) c.schema.records c.files := by
  have hprintable := Schema.printable_of_read (compile_eq_ok_iff.1 h).1
  refine ((List.forall₂_and_left _ _).2 ⟨hprintable.docs, compiled_files h⟩).imp ?_
  rintro r file ⟨⟨hdocs, hfields⟩, hfile⟩
  exact hfile.readsBack hscope hdocs hfields

/-- A text whose comments look like lines that tell something. -/
def mimickingText : String :=
  "\"private:\"\nP:\n  a u8\n  \"    static constexpr size_t offset_a = 1;\"\n  n u32 mut\n"

theorem readBack_mimickingText :
    ∃ c, compile mimickingText { scope := some "demo" } = .ok c
      ∧ c.files.map (·.layout.slots.map Slot.place) = [[⟨"a", 0, 0⟩, ⟨"n", 4, 3⟩]]
      ∧ List.Forall₂ (fun r file => file.ReadsBack r { scope := some "demo" })
          c.schema.records c.files := by
  obtain ⟨c, hc, hplaces⟩ : ∃ c, compile mimickingText { scope := some "demo" } = .ok c
      ∧ c.files.map (·.layout.slots.map Slot.place) = [[⟨"a", 0, 0⟩, ⟨"n", 4, 3⟩]] :=
    exists_compile_eq_ok (by decide +kernel)
  exact ⟨c, hc, hplaces, compiled_files_readBack hc (by decide +kernel)⟩

end FlatRecord
