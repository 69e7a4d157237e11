import FlatRecord.Proofs.Grammar
import FlatRecord.Proofs.Printing

/-!
# Writing and reading

A schema that is written reads as the schema it came from, with the lines where its
declarations now stand (`Schema.print_round_trip`). All it takes is that the schema is
well-formed and that no comment holds a line feed (`Schema.Printable`): a comment stands
between quotes, and only the end of its line could break it.

That is no restriction for a schema that was read itself. Its comments come from
lines, and no line holds a line feed (`Schema.printable_of_read`).
-/

namespace FlatRecord

/-! ## Schemas that can be written -/

/-- No comment of a list holds a line feed. -/
def FitLines (docs : List String) : Prop := ∀ d ∈ docs, '\n' ∉ d.toList

/-- **A schema that can be written**: it is well-formed, and no comment in it holds a
line feed. -/
structure Schema.Printable (s : Schema) : Prop where
  /-- Its records are well-formed. -/
  wellFormed : s.WellFormed
  /-- Its comments are of one line each. -/
  docs : ∀ r ∈ s.records, FitLines r.docs ∧ ∀ f ∈ r.fields, FitLines f.docs

/-- A text that is one whole line: it holds no line feed, and its end is not taken for
part of a line ending. -/
def IsLine (text : String) : Prop := '\n' ∉ text.toList ∧ text.toList.getLast? ≠ some '\r'

theorem isLine_quoted {text : String} (h : '\n' ∉ text.toList) : IsLine (quoted text) := by
  unfold IsLine
  rw [Line.toList_quoted]
  constructor
  · simp only [List.mem_cons, List.mem_append, List.not_mem_nil, or_false, not_or]
    exact ⟨by decide, h, by decide⟩
  · rw [← List.cons_append, List.getLast?_concat]
    decide

theorem isLine_indent {text : String} (h : IsLine text) : IsLine (indent text) := by
  unfold IsLine
  rw [Line.toList_indent]
  constructor
  · exact fun hmem => (List.mem_append.1 hmem).elim (by decide) h.1
  · intro hlast
    cases hcs : text.toList with
    | nil =>
      rw [hcs] at hlast
      exact absurd hlast (by decide)
    | cons c cs =>
      rw [hcs, List.getLast?_append_of_ne_nil _ (List.cons_ne_nil c cs), ← hcs] at hlast
      exact h.2 hlast

theorem isLine_header {name : String} (h : Text.isIdentifier name.toList = true) :
    IsLine (name ++ ":") := by
  have htoList : (name ++ ":").toList = name.toList ++ [':'] := by
    simp [String.toList_append]
  unfold IsLine
  rw [htoList, List.getLast?_concat]
  refine ⟨fun hmem => ?_, by decide⟩
  rcases List.mem_append.1 hmem with hmem | hmem
  · have hpart := Text.isIdentifierPart_of_mem h hmem
    exact absurd (Text.isBlank_of_isIdentifierPart hpart) (by decide)
  · exact absurd hmem (by decide)

theorem isLine_field {f : Field} (h : f.WellFormed) : IsLine f.print := by
  refine ⟨fun hmem => (Field.ne_of_mem_print h '\n' hmem).2 rfl, fun hlast => ?_⟩
  exact absurd (Field.isBlank_getLast?_print h '\r' hlast) (by decide)

theorem isLine_of_mem_printed_field {f : Field} (h : f.WellFormed) (hdocs : FitLines f.docs) :
    ∀ text ∈ f.printed, IsLine text := by
  intro text htext
  rcases List.mem_append.1 htext with htext | htext
  · obtain ⟨d, hd, rfl⟩ := List.mem_map.1 htext
    exact isLine_indent (isLine_quoted (hdocs d hd))
  · obtain rfl := List.mem_singleton.1 htext
    exact isLine_indent (isLine_field h)

theorem isLine_of_mem_printed_record {r : Record} (h : r.WellFormed) (hdocs : FitLines r.docs)
    (hfields : ∀ f ∈ r.fields, FitLines f.docs) : ∀ text ∈ r.printed, IsLine text := by
  intro text htext
  rcases List.mem_append.1 htext with htext | htext
  · obtain ⟨d, hd, rfl⟩ := List.mem_map.1 htext
    exact isLine_quoted (hdocs d hd)
  · rcases List.mem_cons.1 htext with rfl | htext
    · exact isLine_header h.name
    · obtain ⟨f, hf, htext⟩ := List.mem_flatMap.1 htext
      exact isLine_of_mem_printed_field (h.fields f hf) (hfields f hf) text htext

/-- Every line that is written is one whole line. -/
theorem isLine_of_mem_printRecords {records : List Record}
    (h : ∀ r ∈ records, ∀ text ∈ r.printed, IsLine text) :
    ∀ text ∈ printRecords records, IsLine text := by
  induction records with
  | nil => exact fun text htext => absurd htext List.not_mem_nil
  | cons r records ih =>
    have hr := h r List.mem_cons_self
    have hrest := ih fun s hs => h s (List.mem_cons_of_mem _ hs)
    cases records with
    | nil => exact hr
    | cons s records =>
      intro text htext
      rcases List.mem_append.1 htext with htext | htext
      · exact hr text htext
      · rcases List.mem_cons.1 htext with rfl | htext
        · exact ⟨by decide, by decide⟩
        · exact hrest text htext

/-- The lines of the text of a schema are those that were written. -/
theorem Schema.ofText_print {s : Schema} (h : s.Printable) :
    Line.ofText s.print = Line.ofTexts 1 s.printed := by
  have hlines : ∀ text ∈ s.printed, IsLine text :=
    isLine_of_mem_printRecords fun r hr =>
      isLine_of_mem_printed_record (h.wellFormed r hr) (h.docs r hr).1 (h.docs r hr).2
  have htoList : s.print.toList = (s.printed.map String.toList).flatMap (· ++ ['\n']) := by
    simp [print, String.toList_join, List.flatMap_map, String.toList_append]
  rw [Line.ofText, htoList, Text.lines_flatMap]
  · rfl
  · intro l hl
    obtain ⟨text, htext, rfl⟩ := List.mem_map.1 hl
    exact hlines text htext

/-- **What was written reads as the schema it came from**, at the lines where it now
stands. -/
theorem Schema.read_print_of_printable {s : Schema} (h : s.Printable) :
    Schema.read s.print = .ok s.numbered := by
  -- the lines that were written are a run to a reader that may stop
  rw [Schema.read, Schema.ofText_print h, Schema.ofLines_eq_ok_iff]
  exact Reader.run_records h.wellFormed 1

/-! ## What was read can be written -/

/-- A line of consecutive ones is read off one of the texts. -/
theorem Line.exists_text_of_mem_numberFrom {n : Nat} {texts : List (List Char)} {line : Line}
    (h : line ∈ Line.numberFrom n texts) :
    ∃ cs ∈ texts, ∃ k, line = Line.classify (String.ofList cs) k := by
  induction texts generalizing n with
  | nil => exact absurd h List.not_mem_nil
  | cons cs texts ih =>
    rcases List.mem_cons.1 h with rfl | h
    · exact ⟨cs, List.mem_cons_self, n, rfl⟩
    · obtain ⟨ds, hds, k, hk⟩ := ih h
      exact ⟨ds, List.mem_cons_of_mem _ hds, k, hk⟩

/-- No comment of a text holds a line feed. -/
theorem Line.not_newline_of_comment {text comment : String} {line : Line}
    (hline : line ∈ Line.ofText text) (hc : line.content = .comment comment) :
    '\n' ∉ comment.toList := by
  obtain ⟨cs, hcs, k, rfl⟩ := Line.exists_text_of_mem_numberFrom hline
  intro hmem
  have hstands : comment.toList <:+: cs := Line.infix_of_text? (congrArg LineContent.text? hc)
  exact Text.not_newline_of_mem_lines hcs (hstands.subset hmem)

/-- What a schema says as comments are the comments of its records and fields. -/
theorem Schema.doc_mem_listing {s : Schema} {r : Record} (hr : r ∈ s.records) {d : String}
    (hd : d ∈ r.docs ∨ ∃ f ∈ r.fields, d ∈ f.docs) : Item.doc d ∈ s.listing := by
  refine List.mem_flatMap.2 ⟨r, hr, ?_⟩
  rcases hd with hd | ⟨f, hf, hd⟩
  · refine List.mem_append_left _ (List.mem_append_left _ ?_)
    exact List.mem_map.2 ⟨d, hd, rfl⟩
  · refine List.mem_append_right _ (List.mem_flatMap.2 ⟨f, hf, List.mem_append_left _ ?_⟩)
    exact List.mem_map.2 ⟨d, hd, rfl⟩

/-- **A schema that was read can be written.** -/
theorem Schema.printable_of_read {text : String} {s : Schema} (h : Schema.read text = .ok s) :
    s.Printable := by
  have htold := Schema.told_of_ofLines h
  -- each comment is that of a line
  have hdoc : ∀ d, Item.doc d ∈ s.listing → '\n' ∉ d.toList := by
    intro d hd
    obtain ⟨line, hline, hsays⟩ := htold.exists_line hd
    cases hsays with
    | doc hc => exact Line.not_newline_of_comment hline hc
  refine ⟨Schema.wellFormed_of_ofLines h, fun r hr => ⟨fun d hd => ?_, fun f hf d hd => ?_⟩⟩
  · exact hdoc d (Schema.doc_mem_listing hr (.inl hd))
  · exact hdoc d (Schema.doc_mem_listing hr (.inr ⟨f, hf, hd⟩))

/-! ## Where declarations stand -/

/-- A text stands on a line of consecutive ones, the first with the given number. -/
def StandsAt (first : Nat) (texts : List String) (line : Nat) (text : String) : Prop :=
  ∃ k, line = first + k ∧ texts[k]? = some text

/-- **The lines of a schema are those of texts**: each declaration is found on its
line, counted from 1. -/
def Schema.StandsIn (s : Schema) (texts : List String) : Prop :=
  ∀ r ∈ s.records, StandsAt 1 texts r.line (r.name ++ ":")
    ∧ ∀ f ∈ r.fields, StandsAt 1 texts f.line (indent f.print)

namespace StandsAt

variable {first line : Nat} {before texts : List String} {text : String}

theorem append_left (h : StandsAt first before line text) (after : List String) :
    StandsAt first (before ++ after) line text := by
  obtain ⟨k, rfl, hk⟩ := h
  refine ⟨k, rfl, ?_⟩
  rw [List.getElem?_append_left (List.getElem?_eq_some_iff.1 hk).1, hk]

theorem append_right (h : StandsAt (first + before.length) texts line text) :
    StandsAt first (before ++ texts) line text := by
  obtain ⟨k, rfl, hk⟩ := h
  refine ⟨before.length + k, Nat.add_assoc _ _ _, ?_⟩
  rw [List.getElem?_append_right (Nat.le_add_right _ _), Nat.add_sub_cancel_left, hk]

theorem head : StandsAt first (text :: texts) first text := ⟨0, rfl, rfl⟩

end StandsAt

theorem standsAt_numberFields (first : Nat) (fields : List Field) :
    ∀ f ∈ numberFields first fields,
      StandsAt first (fields.flatMap Field.printed) f.line (indent f.print) := by
  induction fields generalizing first with
  | nil => exact fun f hf => absurd hf List.not_mem_nil
  | cons g fields ih =>
    intro f hf
    rw [List.flatMap_cons]
    rcases List.mem_cons.1 hf with rfl | hf
    · refine .append_left (.append_right ?_) _
      rw [List.length_map]
      exact .head
    · exact .append_right (ih _ f hf)

theorem standsAt_numberedFrom (first : Nat) (r : Record) :
    StandsAt first r.printed (r.numberedFrom first).line (r.name ++ ":")
      ∧ ∀ f ∈ (r.numberedFrom first).fields,
        StandsAt first r.printed f.line (indent f.print) := by
  unfold Record.printed
  constructor
  · refine .append_right ?_
    rw [List.length_map]
    exact .head
  · intro f hf
    refine .append_right ?_
    rw [← List.singleton_append]
    refine .append_right ?_
    rw [List.length_map]
    exact standsAt_numberFields _ r.fields f hf

theorem standsAt_numberRecords (first : Nat) (records : List Record) :
    ∀ r ∈ numberRecords first records,
      StandsAt first (printRecords records) r.line (r.name ++ ":")
        ∧ ∀ f ∈ r.fields, StandsAt first (printRecords records) f.line (indent f.print) := by
  induction records generalizing first with
  | nil => exact fun r hr => absurd hr List.not_mem_nil
  | cons s records ih =>
    intro r hr
    rcases List.mem_cons.1 hr with rfl | hr
    · obtain ⟨hheader, hfields⟩ := standsAt_numberedFrom first s
      cases records with
      | nil => exact ⟨hheader, hfields⟩
      | cons t records =>
        exact ⟨hheader.append_left _, fun f hf => (hfields f hf).append_left _⟩
    · cases records with
      | nil => exact absurd hr List.not_mem_nil
      | cons t records =>
        -- the records behind the first one begin after a blank line
        have hshift : ∀ {line : Nat} {text : String},
            StandsAt (first + s.printed.length + 1) (printRecords (t :: records)) line text →
            StandsAt first (printRecords (s :: t :: records)) line text := by
          intro line text h
          show StandsAt first (s.printed ++ ([""] ++ printRecords (t :: records))) line text
          exact .append_right (.append_right h)
        obtain ⟨hheader, hfields⟩ := ih _ r hr
        exact ⟨hshift hheader, fun f hf => hshift (hfields f hf)⟩

/-! ## The round trip -/

namespace Field

/-- A field without its line. -/
def eraseLine (f : Field) : Field := { f with line := 0 }

end Field

/-- A record without lines. -/
def Record.eraseLines (r : Record) : Record :=
  { r with line := 0, fields := r.fields.map Field.eraseLine }

/-- A schema without lines. -/
def Schema.eraseLines (s : Schema) : Schema := ⟨s.records.map Record.eraseLines⟩

theorem map_eraseLine_numberFields (n : Nat) (fields : List Field) :
    (numberFields n fields).map Field.eraseLine = fields.map Field.eraseLine := by
  induction fields generalizing n with
  | nil => rfl
  | cons f fields ih => rw [numberFields, List.map_cons, ih]; rfl

theorem map_eraseLines_numberRecords (n : Nat) (records : List Record) :
    (numberRecords n records).map Record.eraseLines = records.map Record.eraseLines := by
  induction records generalizing n with
  | nil => rfl
  | cons r records ih =>
    rw [numberRecords, List.map_cons, ih, List.map_cons]
    simp only [Record.eraseLines, Record.numberedFrom, map_eraseLine_numberFields]

/-- Numbering changes nothing but lines. -/
theorem Schema.eraseLines_numbered (s : Schema) : s.numbered.eraseLines = s.eraseLines :=
  congrArg Schema.mk (map_eraseLines_numberRecords 1 s.records)

/-- The lines of a numbered schema are those of its text. -/
theorem Schema.standsIn_numbered (s : Schema) : s.numbered.StandsIn s.printed :=
  standsAt_numberRecords 1 s.records

/-- **Writing and reading is a round trip.** A schema that can be written reads as
itself but for its lines, which are those where its declarations were written. And
every schema that was read can be written, so to read again what was written of it
changes nothing else. -/
theorem Schema.print_round_trip :
    (∀ s : Schema, s.Printable →
        Schema.read s.print = .ok s.numbered ∧ s.numbered.eraseLines = s.eraseLines
          ∧ s.numbered.StandsIn s.printed)
      ∧ ∀ text s, Schema.read text = .ok s →
          s.Printable ∧ ∃ t, Schema.read s.print = .ok t ∧ t.eraseLines = s.eraseLines := by
  refine ⟨fun s hs => ?_, fun text s hs => ?_⟩
  · exact ⟨Schema.read_print_of_printable hs, s.eraseLines_numbered, s.standsIn_numbered⟩
  · have hprintable := Schema.printable_of_read hs
    exact ⟨hprintable, s.numbered, Schema.read_print_of_printable hprintable,
      s.eraseLines_numbered⟩

/-- A schema with comments that could be taken for something else. -/
def sampleSchema : Schema where
  records :=
    [{ name := "P"
       line := 0
       docs := [" \"Q\": ", ""]
       fields :=
        [⟨"x", 0, ["x u8 mut"], .optional (some 18446744073709551615),
            .ofPlain "u8" "uint8_t" 1, true⟩] }]

theorem printable_sampleSchema : sampleSchema.Printable := by
  constructor
  · intro r hr
    obtain rfl := List.mem_singleton.1 hr
    refine ⟨by decide, List.cons_ne_nil _ _, fun f hf => ?_⟩
    obtain rfl := List.mem_singleton.1 hf
    refine ⟨by decide, by decide, rfl, fun n hn => ?_⟩
    obtain rfl := Option.some.inj hn
    decide
  · intro r hr
    obtain rfl := List.mem_singleton.1 hr
    unfold FitLines
    decide

theorem read_print_sampleSchema :
    Schema.read sampleSchema.print = .ok sampleSchema.numbered :=
  (Schema.print_round_trip.1 sampleSchema printable_sampleSchema).1

end FlatRecord
