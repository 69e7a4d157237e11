import FlatRecord.Failure
import FlatRecord.Proofs.FirstRejected
import FlatRecord.Proofs.NameRules

/-!
# The line that an error points at

Every error of compiling a text carries the number of one of its lines, and that line
shows what is wrong (`Violation.ShownAt`): it declares the name that is refused, or holds
the text that is reported, or is the one that ended a block too early.

Reading could see to that as it goes, but names and layouts are looked at when it is
over, and what they look at is a schema that has no text any more. All that is left of
the text there are the numbers in it. So the link is an invariant of the reader: each
declaration of what it holds was found on the line of that number, a field under the
header of its record (`Reader.Traced`), and the block that is open is the one that the
lines read so far end in (`OpenBlock`). The errors of the three stages are then taken
one by one, and for each the line is already known.
-/

namespace FlatRecord

/-! ## Lines of a text -/

/-- The line is the header of a record of this name. -/
def Line.DeclaresRecord (line : Line) (name : String) : Prop :=
  line.indented = false ∧ line.content = .header name

/-- The line declares a field of this name. -/
def Line.DeclaresField (line : Line) (name : String) : Prop :=
  line.indented = true
    ∧ ∃ text f, line.content = .text text ∧ Field.read text line.number = .ok f ∧ f.name = name

/-- **Lines that end in a block of a record**: the last of them that is not indented is its
header, and no line behind that is blank. -/
def OpenBlock (lines : List Line) (record : String) : Prop :=
  ∃ outside header inside, lines = outside ++ header :: inside ∧ header.DeclaresRecord record
    ∧ ∀ line ∈ inside, line.indented = true ∧ line.content ≠ .blank

/-- **A site in a text**: one of its lines, with those before and behind it, and the
characters of that line. -/
structure Site (text : String) where
  /-- The lines before. -/
  before : List Line
  /-- The line. -/
  line : Line
  /-- The lines behind. -/
  after : List Line
  /-- The characters of the line. -/
  raw : List Char
  /-- The text has these lines. -/
  lines_eq : Line.ofText text = before ++ line :: after
  /-- The characters are those that stand there. -/
  raw_eq : (Text.lines text.toList)[before.length]? = some raw

/-- The number of the line, counted from 1. -/
def Site.number {text : String} (p : Site text) : Nat := p.before.length + 1

/-- **A site shows a violation** that is reported there. -/
def Violation.ShownAt {text : String} (p : Site text) : Violation → Prop
  | .unexpectedIndent => p.line.indented = true
  | .missingIndent => p.line.indented = false
  | .malformed _ => True
  | .invalidIdentifier s | .unknownType s | .optionalText s | .invalidLength s =>
    s.toList <:+: p.raw
  | .emptyRecord record =>
    (p.line.content = .blank ∧ OpenBlock p.before record)
      ∨ (p.after = [] ∧ OpenBlock (p.before ++ [p.line]) record)
  | .orphanedComment =>
    (p.line.content = .blank ∧ ∃ record, OpenBlock p.before record) ∨ p.after = []
  | .duplicateRecord record => p.line.DeclaresRecord record
  | .duplicateField record field => p.line.DeclaresField field ∧ OpenBlock p.before record
  | .reservedName name =>
    p.line.DeclaresRecord name
      ∨ (p.line.DeclaresField name ∧ ∃ record, OpenBlock p.before record)
  | .recordTooLarge record => (∃ f, p.line.DeclaresField f) ∧ OpenBlock p.before record

namespace Site

variable {text : String}

theorem number_le (p : Site text) : p.number ≤ (Text.lines text.toList).length :=
  (List.getElem?_eq_some_iff.1 p.raw_eq).1

theorem line_eq (p : Site text) : p.line = Line.classify (String.ofList p.raw) p.number := by
  have hline : (Line.ofText text)[p.before.length]? = some p.line := by
    rw [p.lines_eq, List.getElem?_append_right (Nat.le_refl _), Nat.sub_self,
      List.getElem?_cons_zero]
  rw [Line.ofText, Line.getElem?_numberFrom, p.raw_eq, Nat.add_comm] at hline
  exact (Option.some.inj hline).symm

/-- Where the lines of a text are cut, there is a site. -/
theorem exists_of_split {before after : List Line} {line : Line}
    (h : Line.ofText text = before ++ line :: after) :
    ∃ p : Site text, p.before = before ∧ p.line = line ∧ p.after = after
      ∧ p.number = line.number := by
  have hlt : before.length < (Text.lines text.toList).length := by
    rw [← Line.length_numberFrom 1, ← Line.ofText, h, List.length_append, List.length_cons]
    omega
  let p : Site text := ⟨before, line, after, _, h, List.getElem?_eq_getElem hlt⟩
  refine ⟨p, rfl, rfl, rfl, ?_⟩
  exact congrArg Line.number p.line_eq.symm

end Site

/-! ## What a reader holds -/

/-- A line of this number is among some lines, and has a property that may speak of the
lines before it. -/
def FoundAt (lines : List Line) (number : Nat) (P : List Line → Line → Prop) : Prop :=
  ∃ before line after, lines = before ++ line :: after ∧ line.number = number ∧ P before line

/-- **A record that was read from lines**: its header is on the line of its number, and each
field on that of its own, under the header. -/
structure Record.Traced (lines : List Line) (r : Record) : Prop where
  /-- Where the header is. -/
  header : FoundAt lines r.line fun _ line => line.DeclaresRecord r.name
  /-- Where the fields are. -/
  fields : ∀ f ∈ r.fields,
    FoundAt lines f.line fun before line => line.DeclaresField f.name ∧ OpenBlock before r.name

/-- **The invariant of a reader of lines**: what it holds was found in them. -/
structure Reader.Traced (lines : List Line) (r : Reader) : Prop where
  /-- The block that is open is the one that the lines end in. -/
  stage : ∀ record, r.stage.record? = some record →
    OpenBlock lines record.name ∧ record.Traced lines
  /-- The finished records were found. -/
  finished : ∀ record ∈ r.finished, record.Traced lines

section Lines

variable {lines : List Line} {line : Line} {number : Nat} {name : String}
  {P : List Line → Line → Prop}

theorem FoundAt.last (h : P lines line) : FoundAt (lines ++ [line]) line.number P :=
  ⟨lines, line, [], rfl, rfl, h⟩

theorem FoundAt.append (h : FoundAt lines number P) (more : List Line) :
    FoundAt (lines ++ more) number P := by
  obtain ⟨before, found, after, rfl, hnumber, hP⟩ := h
  exact ⟨before, found, after ++ more, List.append_assoc _ _ _, hnumber, hP⟩

theorem Record.Traced.append {r : Record} (h : r.Traced lines) (more : List Line) :
    r.Traced (lines ++ more) :=
  ⟨h.header.append more, fun f hf => (h.fields f hf).append more⟩

theorem OpenBlock.header (h : line.DeclaresRecord name) : OpenBlock (lines ++ [line]) name :=
  ⟨lines, line, [], rfl, h, fun _ hl => absurd hl List.not_mem_nil⟩

/-- An indented line that is not blank keeps a block open. -/
theorem OpenBlock.concat (h : OpenBlock lines name) (hi : line.indented = true)
    (hc : line.content ≠ .blank) : OpenBlock (lines ++ [line]) name := by
  obtain ⟨outside, header, inside, rfl, hheader, hinside⟩ := h
  refine ⟨outside, header, inside ++ [line], ?_, hheader, fun l hl => ?_⟩
  · rw [List.append_assoc, List.cons_append]
  · rcases List.mem_append.1 hl with hl | hl
    · exact hinside l hl
    · obtain rfl := List.mem_singleton.1 hl
      exact ⟨hi, hc⟩

end Lines

namespace Reader

/-- A reader between blocks holds the finished records only. -/
theorem traced_idle {lines : List Line} {comments : List String} {finished : List Record}
    (h : ∀ record ∈ finished, record.Traced lines) :
    Traced lines ⟨.idle, comments, finished⟩ :=
  ⟨nofun, h⟩

theorem traced_fresh : fresh.Traced [] := traced_idle fun _ h => absurd h List.not_mem_nil

/-- **An accepted line keeps the invariant.** -/
theorem Accepts.traced {lines : List Line} {r r' : Reader} {line : Line} (h : Accepts r line r')
    (hr : r.Traced lines) : r'.Traced (lines ++ [line]) := by
  have hfinished : ∀ record ∈ r.finished, record.Traced (lines ++ [line]) := fun record hmem =>
    (hr.finished record hmem).append _
  cases h with
  | blank | comment => exact traced_idle hfinished
  | header hc hi hname =>
    refine ⟨?_, hfinished⟩
    rintro _ ⟨⟩
    exact ⟨.header ⟨hi, hc⟩, .last ⟨hi, hc⟩, fun _ hf => absurd hf List.not_mem_nil⟩
  | @innerComment stage comments finished line record text hs hc hi =>
    obtain ⟨hopen, htraced⟩ := hr.stage record hs
    have hne : line.content ≠ .blank := fun hblank => by rw [hblank] at hc; cases hc
    refine ⟨fun record' hs' => ?_, hfinished⟩
    obtain rfl := Option.some.inj ((Stage.record?_ofRecord record).symm.trans hs')
    exact ⟨hopen.concat hi hne, htraced.append _⟩
  | @field stage comments finished line record text f hs hc hi hf =>
    obtain ⟨hopen, htraced⟩ := hr.stage record hs
    have hne : line.content ≠ .blank := fun hblank => by rw [hblank] at hc; cases hc
    refine ⟨fun record' hs' => ?_, hfinished⟩
    obtain rfl := Option.some.inj ((Stage.record?_ofRecord _).symm.trans hs')
    refine ⟨hopen.concat hi hne, htraced.header.append _, fun g hg => ?_⟩
    rcases List.mem_append.1 hg with hg | hg
    · exact (htraced.fields g hg).append _
    · obtain rfl := List.mem_singleton.1 hg
      obtain ⟨-, -, -, -, -, -, -, -, hline, -⟩ := Field.read_eq_ok_iff.1 hf
      show FoundAt _ f.line _
      rw [hline]
      exact .last ⟨⟨hi, text, f, hc, hf, rfl⟩, hopen⟩
  | @close stage finished line record hs hc hfields =>
    refine traced_idle fun record' hmem => ?_
    rcases List.mem_append.1 hmem with hmem | hmem
    · exact hfinished record' hmem
    · obtain rfl := List.mem_singleton.1 hmem
      exact (hr.stage record' hs).2.append _

/-- **What a run from the start holds was found in its lines.** -/
theorem Run.traced {lines : List Line} {r : Reader} (h : Run fresh lines r) : r.Traced lines :=
  h.preserves (P := fun lines r => r.Traced lines) (fun hr hline => hline.traced hr) []
    traced_fresh

theorem Ends.traced {lines : List Line} {r : Reader} {records : List Record}
    (h : Ends r records) (hr : r.Traced lines) : ∀ record ∈ records, record.Traced lines := by
  cases h with
  | idle => exact hr.finished
  | close hs hfields =>
    intro record hmem
    rcases List.mem_append.1 hmem with hmem | hmem
    · exact hr.finished record hmem
    · obtain rfl := List.mem_singleton.1 hmem
      exact (hr.stage record hs).2

end Reader

/-- **The records of a text were found in its lines.** -/
theorem Schema.traced_of_read {text : String} {s : Schema} (h : Schema.read text = .ok s) :
    ∀ record ∈ s.records, record.Traced (Line.ofText text) := by
  obtain ⟨r, hrun, hends⟩ := Schema.ofLines_eq_ok_iff.1 h
  exact hends.traced hrun.traced

/-! ## What a field line can be refused for -/

/-- The text that a violation of a field line reports, if it reports one on its own. -/
def Violation.StandsIn (text : List Char) : Violation → Prop
  | .malformed _ => True
  | .invalidIdentifier s | .unknownType s | .optionalText s | .invalidLength s =>
    s.toList <:+: text
  | _ => False

/-- What stands in part of a text stands in the text. -/
theorem Violation.StandsIn.mono {v : Violation} {part text : List Char} (h : v.StandsIn part)
    (hpart : part <:+: text) : v.StandsIn text := by
  cases v with
  | malformed => trivial
  | invalidIdentifier | unknownType | optionalText | invalidLength => exact h.trans hpart
  | _ => cases h

theorem Violation.StandsIn.shownAt {v : Violation} {text : String} {p : Site text}
    (h : v.StandsIn p.raw) : v.ShownAt p := by
  cases v with
  | malformed => trivial
  | invalidIdentifier | unknownType | optionalText | invalidLength => exact h
  | _ => cases h

theorem FieldWords.malformed_of_split {text : String} {v : Violation}
    (h : FieldWords.split text = .error v) : ∃ fault, v = .malformed fault := by
  unfold split at h
  split at h
  · cases h
  · split at h
    · cases h
    · exact ⟨_, (Except.error.inj h).symm⟩
  · exact ⟨_, (Except.error.inj h).symm⟩

/-- The name and the type of a field stand on its line. -/
theorem FieldWords.infix_of_split {text : String} {words : FieldWords}
    (h : FieldWords.split text = .ok words) :
    words.name.toList <:+: text.toList ∧ words.type.toList <:+: text.toList := by
  have hword : ∀ word ∈ (Text.words text.toList).map String.ofList,
      word.toList <:+: text.toList := by
    intro word hword
    obtain ⟨cs, hcs, rfl⟩ := List.mem_map.1 hword
    rw [String.toList_ofList]
    exact Text.infix_of_mem_words hcs
  unfold split at h
  split at h
  · rename_i hwords
    cases h
    exact ⟨hword _ (by simp [hwords]), hword _ (by simp [hwords])⟩
  · rename_i hwords
    split at h
    · cases h
      exact ⟨hword _ (by simp [hwords]), hword _ (by simp [hwords])⟩
    · cases h
  · cases h

namespace TypeToken

/-- The name of a token stands in it. -/
theorem infix_of_read {text : String} {token : TypeToken} (h : read text = .ok token) :
    token.name.toList <:+: text.toList := by
  obtain ⟨f, rfl, rfl⟩ := read_eq_ok_iff_form.1 h
  rw [f.toList_text]
  exact ⟨_, _, List.append_assoc _ _ _⟩

theorem standsIn_of_read {text : String} {v : Violation} (h : read text = .error v) :
    v.StandsIn text.toList := by
  rcases read_cases text with ⟨f, rfl⟩ | ⟨digits, hbad⟩ | ⟨fault, hfault⟩
  · cases f.read_text.symm.trans h
  · obtain rfl := Except.error.inj ((read_of_badlySized hbad).symm.trans h)
    obtain ⟨isOptional, name, rest, -, -, -, rfl⟩ := hbad
    refine ⟨(opener isOptional ++ name ++ "[").toList, ("]" ++ rest).toList, ?_⟩
    simp [String.toList_append]
  · obtain rfl := Except.error.inj (hfault.symm.trans h)
    trivial

theorem eq_optionalText_of_shapeOver {token : TypeToken} {type : ScalarType} {v : Violation}
    (h : token.shapeOver type = .error v) : v = .optionalText type.name := by
  unfold shapeOver at h
  split at h <;> cases h
  rfl

end TypeToken

/-- **What a field line is refused for stands on it.** -/
theorem Field.standsIn_of_read {text : String} {line : Nat} {v : Violation}
    (h : Field.read text line = .error v) : v.StandsIn text.toList := by
  rcases bind_eq_error.1 h with hsplit | ⟨words, hwords, h⟩
  · obtain ⟨fault, rfl⟩ := FieldWords.malformed_of_split hsplit
    trivial
  obtain ⟨hname, htype⟩ := FieldWords.infix_of_split hwords
  rcases bind_eq_error.1 h with htoken | ⟨token, htoken, h⟩
  · exact (TypeToken.standsIn_of_read htoken).mono htype
  have htokenName := (TypeToken.infix_of_read htoken).trans htype
  rcases bind_eq_error.1 h with hfind | ⟨type, hfind, h⟩
  · obtain ⟨-, rfl⟩ := elim_eq_error.1 hfind
    exact htokenName
  rcases bind_eq_error.1 h with hshape | ⟨shape, -, h⟩
  · obtain rfl := TypeToken.eq_optionalText_of_shapeOver hshape
    have htypeName : type.name = token.name := ScalarType.name_of_find? (elim_eq_ok.1 hfind)
    exact htypeName ▸ htokenName
  · split at h
    · cases h
    · cases h
      exact hname

/-! ## Errors of the three stages -/

namespace Reader

/-- A rejected line shows what it is rejected for. -/
theorem Rejects.shownAt {text : String} {r : Reader} {v : Violation} {p : Site text}
    (h : Rejects r p.line v) (hr : r.Traced p.before) : v.ShownAt p := by
  have hstands : ∀ held, p.line.content.text? = some held → held.toList <:+: p.raw :=
    fun held hheld => Line.infix_of_text? (p.line_eq ▸ hheld)
  cases h with
  | unexpectedIndent hs hc hi => exact hi
  | invalidName hs hc hi hname => exact hstands _ (congrArg LineContent.text? hc)
  | strayText | nested => trivial
  | missingIndent hs hc hi => exact hi
  | invalidField hs hc hi hf =>
    exact ((Field.standsIn_of_read hf).mono (hstands _ (congrArg LineContent.text? hc))).shownAt
  | orphanedComment hs hc hcomments => exact .inl ⟨hc, _, (hr.stage _ hs).1⟩
  | emptyRecord hs hc hcomments hfields => exact .inl ⟨hc, (hr.stage _ hs).1⟩

/-- The last line shows what stopping behind it would break. -/
theorem Dangles.shownAt {text : String} {r : Reader} {v : Violation} {p : Site text}
    (h : Dangles r v) (hlast : p.after = []) (hr : r.Traced (p.before ++ [p.line])) :
    v.ShownAt p := by
  cases h with
  | orphanedComment hcomments => exact .inr hlast
  | emptyRecord hs hcomments hfields => exact .inr ⟨hlast, (hr.stage _ hs).1⟩

end Reader

/-- **An error is shown** at a site in a text. -/
def SchemaError.Shown (text : String) (e : SchemaError) : Prop :=
  ∃ p : Site text, p.number = e.line ∧ e.violation.ShownAt p

/-- Reading reports a line that shows what is wrong. -/
theorem Schema.shown_of_read {text : String} {e : SchemaError}
    (h : Schema.read text = .error e) : e.Shown text := by
  rcases Schema.ofLines_eq_error_iff.1 h with hfails | ⟨r, v, hrun, hdangles, rfl⟩
  · obtain ⟨before, line, after, r, v, hsplit, hrun, hrejects, rfl⟩ := hfails.exists_run
    obtain ⟨p, rfl, rfl, rfl, hnumber⟩ := Site.exists_of_split hsplit
    exact ⟨p, hnumber, hrejects.shownAt hrun.traced⟩
  · obtain ⟨before, last, hsplit⟩ :=
      (List.eq_nil_or_concat' (Line.ofText text)).resolve_left (hdangles.ne_nil hrun)
    obtain ⟨p, rfl, rfl, hafter, hnumber⟩ := Site.exists_of_split hsplit
    refine ⟨p, ?_, hdangles.shownAt hafter (hsplit ▸ hrun.traced)⟩
    rw [hsplit, List.length_append]
    rfl

/-- What is found in the lines of a text is found at a site. -/
theorem FoundAt.exists_site {text : String} {number : Nat} {P : List Line → Line → Prop}
    (h : FoundAt (Line.ofText text) number P) :
    ∃ p : Site text, p.number = number ∧ P p.before p.line := by
  obtain ⟨before, line, after, hsplit, rfl, hP⟩ := h
  obtain ⟨p, rfl, rfl, -, hnumber⟩ := Site.exists_of_split hsplit
  exact ⟨p, hnumber, hP⟩

/-- Checking names reports the line of the declaration that it refuses. -/
theorem Schema.shown_of_checkNames {text : String} {s : Schema} {e : SchemaError}
    (hs : ∀ r ∈ s.records, r.Traced (Line.ofText text)) (h : s.checkNames = .error e) :
    e.Shown text := by
  obtain ⟨before, d, after, v, hsplit, -, hoffends, rfl⟩ := Schema.checkNames_eq_error_iff.1 h
  have hmem : d ∈ s.declarations := hsplit ▸ List.mem_append_right _ List.mem_cons_self
  obtain ⟨r, hr, hd⟩ := List.mem_flatMap.1 hmem
  rcases List.mem_cons.1 hd with rfl | hd
  · obtain ⟨p, hnumber, hheader⟩ := (hs r hr).header.exists_site
    refine ⟨p, hnumber, ?_⟩
    cases hoffends with
    | taken => exact .inl hheader
    | repeated => exact hheader
  · obtain ⟨f, hf, rfl⟩ := List.mem_map.1 hd
    obtain ⟨p, hnumber, hfield⟩ := ((hs r hr).fields f hf).exists_site
    refine ⟨p, hnumber, ?_⟩
    cases hoffends with
    | taken => exact .inr ⟨hfield.1, r.name, hfield.2⟩
    | repeated => exact hfield

/-- A record is too large at one of its fields. -/
theorem exists_field_of_placeFields_eq_error {record : String} {cursor : Nat}
    {fields : List Field} {e : SchemaError} (h : placeFields record cursor fields = .error e) :
    ∃ f ∈ fields, e = ⟨f.line, .recordTooLarge record⟩ := by
  induction fields generalizing cursor with
  | nil => cases h
  | cons f rest ih =>
    unfold placeFields at h
    split at h
    · exact ⟨f, List.mem_cons_self, (Except.error.inj h).symm⟩
    · rcases bind_eq_error.1 h with h | ⟨_, -, h⟩
      · obtain ⟨g, hg, he⟩ := ih h
        exact ⟨g, List.mem_cons_of_mem _ hg, he⟩
      · cases h

theorem Record.exists_field_of_layout_eq_error {r : Record} {e : SchemaError}
    (h : r.layout = .error e) : ∃ f ∈ r.fields, e = ⟨f.line, .recordTooLarge r.name⟩ := by
  rcases bind_eq_error.1 h with h | ⟨_, -, h⟩
  · exact exists_field_of_placeFields_eq_error h
  · cases h

/-- Headers are not made for want of a layout. -/
theorem Schema.exists_layout_of_headerFiles_eq_error {options : Options} {records : List Record}
    {e : SchemaError} (h : Schema.headerFiles options records = .error e) :
    ∃ r ∈ records, r.layout = .error e := by
  induction records with
  | nil => cases h
  | cons r rest ih =>
    rcases bind_eq_error.1 h with hfile | ⟨file, -, h⟩
    · rcases bind_eq_error.1 hfile with hlayout | ⟨_, -, h⟩
      · exact ⟨r, List.mem_cons_self, hlayout⟩
      · cases h
    · rcases bind_eq_error.1 h with hrest | ⟨_, -, h⟩
      · obtain ⟨q, hq, hlayout⟩ := ih hrest
        exact ⟨q, List.mem_cons_of_mem _ hq, hlayout⟩
      · cases h

/-- Laying out records reports a field line of the record that is too large. -/
theorem Schema.shown_of_headerFiles {text : String} {options : Options} {records : List Record}
    {e : SchemaError} (hs : ∀ r ∈ records, r.Traced (Line.ofText text))
    (h : Schema.headerFiles options records = .error e) : e.Shown text := by
  obtain ⟨r, hr, hlayout⟩ := Schema.exists_layout_of_headerFiles_eq_error h
  obtain ⟨f, hf, rfl⟩ := Record.exists_field_of_layout_eq_error hlayout
  obtain ⟨p, hnumber, hfield, hopen⟩ := ((hs r hr).fields f hf).exists_site
  exact ⟨p, hnumber, ⟨f.name, hfield⟩, hopen⟩

/-- **Every error of compiling points at a line that shows it.** Whatever the text and the
options, an error has a line number, it is that of a line of the text, and at that line
stands what the error is about. -/
theorem compile_error_shown {text : String} {options : Options} {e : SchemaError}
    (h : compile text options = .error e) :
    ∃ p : Site text, (Failure.schema e).line? = some p.number
      ∧ 1 ≤ p.number ∧ p.number ≤ (Text.lines text.toList).length
      ∧ e.violation.ShownAt p := by
  have hshown : e.Shown text := by
    rcases compile_eq_error_iff.1 h with hread | ⟨s, hread, hnames | ⟨-, hfiles⟩⟩
    · exact Schema.shown_of_read hread
    · exact Schema.shown_of_checkNames (Schema.traced_of_read hread) hnames
    · exact Schema.shown_of_headerFiles (Schema.traced_of_read hread) hfiles
  obtain ⟨p, hnumber, hp⟩ := hshown
  exact ⟨p, congrArg some hnumber.symm, Nat.succ_pos _, p.number_le, hp⟩

/-- A text with a record whose second field is too large, and another record behind. -/
def overfullText : String := "A:\n  x u8\n  \"many\"\n  y u64[2305843009213693952]\n\nB:\n  z u8"

/-- The line is that of the field, not that of the header nor of the comment. -/
theorem overfullText_shown :
    compile overfullText {} = .error ⟨4, .recordTooLarge "A"⟩
      ∧ ∃ p : Site overfullText, (Failure.schema ⟨4, .recordTooLarge "A"⟩).line? = some p.number
        ∧ 1 ≤ p.number ∧ p.number ≤ (Text.lines overfullText.toList).length
        ∧ Violation.ShownAt p (.recordTooLarge "A") := by
  have h : compile overfullText {} = .error ⟨4, .recordTooLarge "A"⟩ := by
    decide +kernel
  exact ⟨h, compile_error_shown h⟩

end FlatRecord
