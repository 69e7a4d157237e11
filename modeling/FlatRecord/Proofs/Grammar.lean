import FlatRecord.Proofs.FieldReading
import FlatRecord.Proofs.ReaderSteps
import Mathlib.Computability.Language
import Mathlib.Data.List.Forall2

/-!
# The language of schemas

Which sequences of lines make a schema can be said without a reader, as a regular
language over lines (`Grammar.schema`). Blank lines and comments may stand before a
block, blank lines at the end, and a block is a header with one or more groups of
comments and a field. A blank line closes it, or the end of the text.

For each reader there is the language of what it may still be given
(`Grammar.residual`). To put a line in front of such a language is to have the line
accepted and go on from the reader that it leads to, `cons_mem_residual_iff`, so the
residual language of the fresh reader – which is that of schemas – is the language
of the texts that are read.

Nothing is lost on the way, and nothing moved. A schema lists what was declared in
it, each comment just before the declaration that it documents (`Schema.listing`),
and the lines that are not blank, in their order, are this list.
-/

namespace FlatRecord

open scoped Computability

/-! ## Lines -/

namespace Line

/-- A line with nothing but blanks. -/
def IsBlank (line : Line) : Prop := line.content = .blank

/-- A comment that is not indented. -/
def IsOuterComment (line : Line) : Prop :=
  line.indented = false ∧ ∃ text, line.content = .comment text

/-- A header that is not indented and names a record. -/
def IsHeader (line : Line) : Prop :=
  line.indented = false
    ∧ ∃ name, line.content = .header name ∧ Text.isIdentifier name.toList = true

/-- An indented comment. -/
def IsInnerComment (line : Line) : Prop :=
  line.indented = true ∧ ∃ text, line.content = .comment text

/-- An indented line that declares a field. -/
def IsField (line : Line) : Prop :=
  line.indented = true
    ∧ ∃ text f, line.content = .text text ∧ Field.read text line.number = .ok f

end Line

/-! ## Languages -/

namespace Grammar

/-- The single lines with a property. -/
def one (p : Line → Prop) : Language Line := {w | ∃ x, p x ∧ w = [x]}

/-- A blank line. -/
def blank : Language Line := one Line.IsBlank

/-- What may stand between blocks: a blank line or an unindented comment. -/
def gap : Language Line := one fun x => x.IsBlank ∨ x.IsOuterComment

/-- A field with the comments in front of it. -/
def group : Language Line := (one Line.IsInnerComment)∗ * one Line.IsField

/-- A header with one or more groups under it. -/
def block : Language Line := one Line.IsHeader * (group * group∗)

/-- **The sequences of lines that make a schema**: any number of blocks that a blank
line closes, and then either blank lines or one more block, closed by the end. -/
def schema : Language Line := (gap∗ * block * blank)∗ * (blank∗ + gap∗ * block)

/-- What may follow a block: the end, or a blank line and a schema. -/
def rest : Language Line := 1 + blank * schema

/-- A schema is blank, or begins with a block. -/
theorem schema_eq : schema = blank∗ + gap∗ * block * rest := by
  have hunfold := Language.one_add_self_mul_kstar_eq_kstar (gap∗ * block * blank)
  have hschema : schema = blank∗ + gap∗ * block + gap∗ * block * blank * schema := by
    calc schema
        = (1 + gap∗ * block * blank * (gap∗ * block * blank)∗) * (blank∗ + gap∗ * block) := by
          rw [hunfold, schema]
      _ = blank∗ + gap∗ * block + gap∗ * block * blank * schema := by
          rw [add_mul, one_mul, mul_assoc (gap∗ * block * blank), schema]
  rw [rest, mul_add, mul_one, ← mul_assoc, ← add_assoc]
  exact hschema

section Words

variable {p : Line → Prop} {l : Language Line} {x : Line} {w : List Line}

theorem cons_mem_one_mul : x :: w ∈ one p * l ↔ p x ∧ w ∈ l := by
  rw [Language.mem_mul]
  constructor
  · rintro ⟨_, ⟨y, hy, rfl⟩, v, hv, heq⟩
    obtain ⟨rfl, rfl⟩ := List.cons.inj heq
    exact ⟨hy, hv⟩
  · rintro ⟨hx, hw⟩
    exact ⟨[x], ⟨x, hx, rfl⟩, w, hw, rfl⟩

theorem nil_not_mem_one_mul : [] ∉ one p * l := by
  rintro ⟨_, ⟨y, hy, rfl⟩, v, hv, heq⟩
  cases heq

/-- A star before a language is left at once, or after another step. -/
theorem kstar_mul (k l : Language Line) : k∗ * l = l + k * (k∗ * l) := by
  calc k∗ * l = (1 + k * k∗) * l := by rw [Language.one_add_self_mul_kstar_eq_kstar]
    _ = l + k * (k∗ * l) := by rw [add_mul, one_mul, mul_assoc]

theorem cons_mem_kstar_mul :
    x :: w ∈ (one p)∗ * l ↔ p x ∧ w ∈ (one p)∗ * l ∨ x :: w ∈ l := by
  rw [kstar_mul, Language.mem_add, cons_mem_one_mul, ← kstar_mul, or_comm]

theorem cons_mem_kstar : x :: w ∈ (one p)∗ ↔ p x ∧ w ∈ (one p)∗ := by
  have h := cons_mem_kstar_mul (p := p) (l := 1) (x := x) (w := w)
  rw [mul_one] at h
  rw [h, or_iff_left]
  exact List.cons_ne_nil x w

theorem nil_mem_kstar_mul : [] ∈ (one p)∗ * l ↔ [] ∈ l := by
  rw [kstar_mul, Language.mem_add, or_iff_left nil_not_mem_one_mul]

end Words

/-! ## What may follow -/

variable {l : Language Line} {x : Line} {w : List Line}

theorem cons_mem_rest : x :: w ∈ rest ↔ x.IsBlank ∧ w ∈ schema := by
  rw [rest, Language.mem_add, blank, cons_mem_one_mul, or_iff_right]
  exact List.cons_ne_nil x w

theorem cons_mem_group_mul :
    x :: w ∈ group * l ↔ x.IsInnerComment ∧ w ∈ group * l ∨ x.IsField ∧ w ∈ l := by
  rw [group, mul_assoc, cons_mem_kstar_mul, cons_mem_one_mul]

theorem cons_mem_groups_rest :
    x :: w ∈ group∗ * rest
      ↔ x :: w ∈ group * (group∗ * rest) ∨ x.IsBlank ∧ w ∈ schema := by
  rw [kstar_mul, Language.mem_add, ← kstar_mul, cons_mem_rest, or_comm]

theorem cons_mem_gaps_block :
    x :: w ∈ gap∗ * block * rest
      ↔ (x.IsBlank ∨ x.IsOuterComment) ∧ w ∈ gap∗ * block * rest
        ∨ x.IsHeader ∧ w ∈ group * (group∗ * rest) := by
  rw [mul_assoc, gap, cons_mem_kstar_mul, block, mul_assoc, mul_assoc, cons_mem_one_mul]

theorem cons_mem_schema :
    x :: w ∈ schema
      ↔ x.IsBlank ∧ w ∈ schema ∨ x.IsOuterComment ∧ w ∈ gap∗ * block * rest
        ∨ x.IsHeader ∧ w ∈ group * (group∗ * rest) := by
  rw [schema_eq, Language.mem_add, Language.mem_add, cons_mem_gaps_block, blank, cons_mem_kstar]
  tauto

/-- **What a reader may still be given.** Comments that are kept ask for a block, or
in a block for a field, and so does a header. -/
def residual (r : Reader) : Language Line :=
  match r.stage.record? with
  | none => if r.comments = [] then schema else gap∗ * block * rest
  | some record =>
    if r.comments = [] ∧ record.fields ≠ [] then group∗ * rest else group * (group∗ * rest)

theorem residual_idle (finished : List Record) : residual ⟨.idle, [], finished⟩ = schema := rfl

/-- Between blocks, comments that are kept ask for a block. -/
theorem residual_of_comments {comments : List String} (h : comments ≠ [])
    (finished : List Record) :
    residual ⟨.idle, comments, finished⟩ = gap∗ * block * rest :=
  if_neg h

theorem residual_of_fields {r : Reader} {record : Record} (hs : r.stage.record? = some record)
    (hcomments : r.comments = []) (hfields : record.fields ≠ []) :
    residual r = group∗ * rest := by
  rw [residual, hs]
  exact if_pos ⟨hcomments, hfields⟩

theorem residual_of_awaiting {r : Reader} {record : Record} (hs : r.stage.record? = some record)
    (h : r.comments ≠ [] ∨ record.fields = []) :
    residual r = group * (group∗ * rest) := by
  rw [residual, hs]
  exact if_neg fun hne => h.elim (absurd hne.1) hne.2

/-- Between blocks a line is blank, or a comment, or a header. -/
theorem cons_mem_residual_idle {comments : List String} {finished : List Record} :
    x :: w ∈ residual ⟨.idle, comments, finished⟩
      ↔ x.IsBlank ∧ w ∈ residual ⟨.idle, comments, finished⟩
        ∨ x.IsOuterComment ∧ w ∈ gap∗ * block * rest
        ∨ x.IsHeader ∧ w ∈ group * (group∗ * rest) := by
  -- only without comments may blank lines be all that follows
  by_cases hcomments : comments = []
  · subst hcomments
    rw [residual_idle]
    exact cons_mem_schema
  · rw [residual_of_comments hcomments, cons_mem_gaps_block, or_and_right, or_assoc]

/-- In a block a line is a comment, or a field, or blank where the block may be
closed. -/
theorem cons_mem_residual_of_record {r : Reader} {record : Record}
    (hs : r.stage.record? = some record) :
    x :: w ∈ residual r
      ↔ x.IsInnerComment ∧ w ∈ group * (group∗ * rest)
        ∨ x.IsField ∧ w ∈ group∗ * rest
        ∨ (r.comments = [] ∧ record.fields ≠ []) ∧ x.IsBlank ∧ w ∈ schema := by
  by_cases h : r.comments = [] ∧ record.fields ≠ []
  · rw [residual_of_fields hs h.1 h.2, cons_mem_groups_rest, cons_mem_group_mul, or_assoc]
    simp only [h, ne_eq, not_false_eq_true, and_self, true_and]
  · have hawaiting : r.comments ≠ [] ∨ record.fields = [] := by
      rwa [not_and_or, not_not] at h
    rw [residual_of_awaiting hs hawaiting, cons_mem_group_mul]
    simp only [h, false_and, or_false]

/-- What a reader may be given between blocks is what it accepts. -/
theorem cons_mem_residual_outside {comments : List String} {finished : List Record} :
    x :: w ∈ residual ⟨.idle, comments, finished⟩
      ↔ ∃ r', Reader.Accepts ⟨.idle, comments, finished⟩ x r' ∧ w ∈ residual r' := by
  rw [cons_mem_residual_idle]
  constructor
  · rintro (⟨hc, hw⟩ | ⟨⟨hi, text, hc⟩, hw⟩ | ⟨⟨hi, name, hc, hname⟩, hw⟩)
    · exact ⟨_, .blank hc, hw⟩
    · refine ⟨_, .comment hc hi, ?_⟩
      rwa [residual_of_comments (List.concat_ne_nil text comments)]
    · refine ⟨_, .header hc hi hname, ?_⟩
      rwa [residual_of_awaiting rfl (.inr rfl)]
  · rintro ⟨r', hline, hw⟩
    cases hline with
    | blank hc => exact .inl ⟨hc, hw⟩
    | @comment _ _ _ text hc hi =>
      rw [residual_of_comments (List.concat_ne_nil text comments)] at hw
      exact .inr (.inl ⟨⟨hi, text, hc⟩, hw⟩)
    | header hc hi hname =>
      rw [residual_of_awaiting rfl (.inr rfl)] at hw
      exact .inr (.inr ⟨⟨hi, _, hc, hname⟩, hw⟩)
    | innerComment hs | field hs | close hs => cases hs

/-- What a reader may be given in a block is what it accepts. -/
theorem cons_mem_residual_inside {r : Reader} {record : Record}
    (hs : r.stage.record? = some record) :
    x :: w ∈ residual r ↔ ∃ r', Reader.Accepts r x r' ∧ w ∈ residual r' := by
  obtain ⟨stage, comments, finished⟩ := r
  -- the next reader has a comment to attach, or a field, or is between blocks
  have hcomment : ∀ text, residual ⟨.ofRecord record, comments ++ [text], finished⟩
      = group * (group∗ * rest) := fun text =>
    residual_of_awaiting (Stage.record?_ofRecord record)
      (.inl (List.concat_ne_nil text comments))
  have hfield : ∀ f : Field, residual ⟨.ofRecord { record with fields := record.fields ++ [f] },
      [], finished⟩ = group∗ * rest := fun f =>
    residual_of_fields (Stage.record?_ofRecord _) rfl (List.concat_ne_nil f record.fields)
  have hclose := residual_idle (finished ++ [record])
  rw [cons_mem_residual_of_record hs]
  constructor
  · rintro (⟨⟨hi, text, hc⟩, hw⟩ | ⟨⟨hi, text, f, hc, hf⟩, hw⟩ | ⟨⟨hcomments, hfields⟩, hc, hw⟩)
    · exact ⟨_, .innerComment hs hc hi, hcomment text ▸ hw⟩
    · exact ⟨_, .field hs hc hi hf, hfield _ ▸ hw⟩
    · obtain rfl : comments = [] := hcomments
      exact ⟨_, .close hs hc hfields, hclose ▸ hw⟩
  · rintro ⟨r', hline, hw⟩
    cases hline with
    | blank hc | comment hc hi | header hc hi hname => cases hs
    | innerComment hs' hc hi =>
      obtain rfl := Option.some.inj (hs.symm.trans hs')
      exact .inl ⟨⟨hi, _, hc⟩, hcomment _ ▸ hw⟩
    | field hs' hc hi hf =>
      obtain rfl := Option.some.inj (hs.symm.trans hs')
      exact .inr (.inl ⟨⟨hi, _, _, hc, hf⟩, hfield _ ▸ hw⟩)
    | close hs' hc hfields =>
      obtain rfl := Option.some.inj (hs.symm.trans hs')
      exact .inr (.inr ⟨⟨rfl, hfields⟩, hc, hclose ▸ hw⟩)

/-- **A line may come next just when it is accepted** and what follows may follow
the reader that it leads to. -/
theorem cons_mem_residual {r : Reader} :
    x :: w ∈ residual r ↔ ∃ r', Reader.Accepts r x r' ∧ w ∈ residual r' := by
  obtain ⟨stage, comments, finished⟩ := r
  cases stage with
  | idle => exact cons_mem_residual_outside
  | header record | block record => exact cons_mem_residual_inside rfl

theorem nil_not_mem_group_mul : [] ∉ group * l := by
  rw [group, mul_assoc, nil_mem_kstar_mul]
  exact nil_not_mem_one_mul

theorem nil_not_mem_gaps_block : [] ∉ gap∗ * block * rest := by
  rw [mul_assoc, gap, nil_mem_kstar_mul, block, mul_assoc]
  exact nil_not_mem_one_mul

theorem nil_mem_rest : [] ∈ rest := .inl rfl

theorem nil_mem_schema : [] ∈ schema := by
  rw [schema_eq]
  exact .inl (Language.nil_mem_kstar _)

/-- Nothing may come next just when the reader may stop. -/
theorem nil_mem_residual {r : Reader} : [] ∈ residual r ↔ ∃ records, Reader.Ends r records := by
  obtain ⟨stage, comments, finished⟩ := r
  constructor
  · intro h
    cases hs : stage.record? with
    | none =>
      obtain rfl : stage = .idle := by cases stage <;> first | rfl | cases hs
      by_cases hcomments : comments = []
      · subst hcomments
        exact ⟨_, .idle⟩
      · rw [residual_of_comments hcomments] at h
        exact absurd h nil_not_mem_gaps_block
    | some record =>
      by_cases hends : comments = [] ∧ record.fields ≠ []
      · obtain ⟨rfl, hfields⟩ := hends
        exact ⟨_, .close hs hfields⟩
      · rw [not_and_or, not_not] at hends
        rw [residual_of_awaiting (r := ⟨stage, comments, finished⟩) hs hends] at h
        exact absurd h nil_not_mem_group_mul
  · rintro ⟨records, hends⟩
    cases hends with
    | idle => exact nil_mem_schema
    | close hs hfields =>
      rw [residual_of_fields (r := ⟨stage, [], _⟩) hs rfl hfields, kstar_mul]
      exact .inl nil_mem_rest

/-- **The residual language of a reader is that of the runs to one that may stop.** -/
theorem mem_residual {r : Reader} {lines : List Line} :
    lines ∈ residual r ↔ ∃ r', Reader.Run r lines r' ∧ ∃ records, Reader.Ends r' records := by
  induction lines generalizing r with
  | nil =>
    rw [nil_mem_residual]
    constructor
    · exact fun h => ⟨r, .nil, h⟩
    · rintro ⟨r', ⟨⟩, h⟩
      exact h
  | cons line lines ih =>
    rw [cons_mem_residual]
    constructor
    · rintro ⟨m, hline, h⟩
      obtain ⟨r', hrun, hends⟩ := ih.1 h
      exact ⟨r', .cons hline hrun, hends⟩
    · rintro ⟨r', hrun, hends⟩
      cases hrun with
      | cons hline hlines => exact ⟨_, hline, ih.2 ⟨r', hlines, hends⟩⟩

end Grammar

/-- **Lines are read to a schema just when they are a schema's.** -/
theorem Schema.exists_ofLines_eq_ok_iff {lines : List Line} :
    (∃ s, Schema.ofLines lines = .ok s) ↔ lines ∈ Grammar.schema := by
  rw [← Grammar.residual_idle [], Grammar.mem_residual]
  constructor
  · rintro ⟨s, hs⟩
    obtain ⟨r, hrun, hends⟩ := Schema.ofLines_eq_ok_iff.1 hs
    exact ⟨r, hrun, _, hends⟩
  · rintro ⟨r, hrun, records, hends⟩
    exact ⟨⟨records⟩, Schema.ofLines_eq_ok_iff.2 ⟨r, hrun, hends⟩⟩

/-! ## What is declared -/

/-- A single thing that a schema says. -/
inductive Item where
  /-- A comment. -/
  | doc (text : String)
  /-- A record and the line of its header. -/
  | record (name : String) (line : Nat)
  /-- A field, its comments put aside. -/
  | field (f : Field)
deriving DecidableEq, Repr

/-- A field with its comments in front. -/
def Field.listing (f : Field) : List Item :=
  f.docs.map .doc ++ [.field { f with docs := [] }]

/-- A record with its comments in front and its fields behind. -/
def Record.listing (r : Record) : List Item :=
  r.docs.map .doc ++ [.record r.name r.line] ++ r.fields.flatMap Field.listing

/-- **All that a schema says**, in order. -/
def Schema.listing (s : Schema) : List Item := s.records.flatMap Record.listing

/-- **What a line says.** A blank line says nothing. -/
inductive Line.Says : Line → Item → Prop
  /-- A comment says its text. -/
  | doc {line : Line} {text : String} (hc : line.content = .comment text) :
      Says line (.doc text)
  /-- A header says its name, at its number. -/
  | record {line : Line} {name : String} (hc : line.content = .header name) :
      Says line (.record name line.number)
  /-- Any other text says the field that is read off it. -/
  | field {line : Line} {text : String} {f : Field} (hc : line.content = .text text)
      (hf : Field.read text line.number = .ok f) : Says line (.field f)

/-- A field that was just read has no comments. -/
theorem Field.docs_of_read {text : String} {n : Nat} {f : Field}
    (h : Field.read text n = .ok f) : f.docs = [] := by
  obtain ⟨words, token, -, -, -, -, -, -, -, hdocs, -⟩ := Field.read_eq_ok_iff.1 h
  exact hdocs

namespace Reader

/-- All that a reader was told: the finished records, the open one and the comments
that wait. -/
def listing (r : Reader) : List Item :=
  r.finished.flatMap Record.listing
    ++ (r.stage.record?.map Record.listing).getD [] ++ r.comments.map .doc

/-- The items that lines say, the blank ones left out. -/
def Told (lines : List Line) (items : List Item) : Prop :=
  List.Forall₂ Line.Says (lines.filter (·.content ≠ .blank)) items

/-- A line that says something adds it. -/
theorem Told.concat {lines : List Line} {items : List Item} (h : Told lines items)
    {line : Line} {item : Item} (hline : line.Says item) :
    Told (lines ++ [line]) (items ++ [item]) := by
  have hne : line.content ≠ .blank := by
    intro hblank
    cases hline with
    | doc hc | record hc | field hc hf => exact absurd (hblank.symm.trans hc) nofun
  have hkeep : [line].filter (·.content ≠ .blank) = [line] := by simp [hne]
  rw [Told, List.filter_append, hkeep]
  exact List.rel_append h (.cons hline .nil)

/-- A blank line adds nothing. -/
theorem Told.blank {lines : List Line} {items : List Item} (h : Told lines items)
    {line : Line} (hline : line.content = .blank) : Told (lines ++ [line]) items := by
  have hdrop : [line].filter (·.content ≠ .blank) = [] := by simp [hline]
  rwa [Told, List.filter_append, hdrop, List.append_nil]

/-- What was told was told by a line. -/
theorem Told.exists_line {lines : List Line} {items : List Item} (h : Told lines items)
    {item : Item} (hitem : item ∈ items) : ∃ line ∈ lines, line.Says item := by
  obtain ⟨i, hi, rfl⟩ := List.getElem_of_mem hitem
  obtain ⟨hlength, hsays⟩ := List.forall₂_iff_get.1 h
  exact ⟨_, List.mem_of_mem_filter (List.getElem_mem (hlength ▸ hi)), hsays i (hlength ▸ hi) hi⟩

/-- **A reader takes from a line what it says**, and keeps what it has. -/
theorem Accepts.told {lines : List Line} {r r' : Reader} {line : Line} (h : Accepts r line r')
    (hr : Told lines r.listing) : Told (lines ++ [line]) r'.listing := by
  cases h with
  | blank hc => exact hr.blank hc
  | @comment comments finished _ text hc hi =>
    have hlisting : listing ⟨.idle, comments ++ [text], finished⟩
        = listing ⟨.idle, comments, finished⟩ ++ [.doc text] := by
      simp only [listing, List.map_append, List.map_cons, List.map_nil, List.append_assoc]
    rw [hlisting]
    exact hr.concat (.doc hc)
  | @header comments finished _ name hc hi hname =>
    have hlisting : listing ⟨.header ⟨name, line.number, comments, []⟩, [], finished⟩
        = listing ⟨.idle, comments, finished⟩ ++ [.record name line.number] := by
      simp [listing, Stage.record?, Record.listing]
    rw [hlisting]
    exact hr.concat (.record hc)
  | @innerComment stage comments finished _ record text hs hc hi =>
    have hlisting : listing ⟨.ofRecord record, comments ++ [text], finished⟩
        = listing ⟨stage, comments, finished⟩ ++ [.doc text] := by
      simp [listing, hs]
    rw [hlisting]
    exact hr.concat (.doc hc)
  | @field stage comments finished _ record text f hs hc hi hf =>
    have hdocs : { f with docs := [] } = f := by
      rw [← Field.docs_of_read hf]
    have hlisting : listing ⟨.ofRecord { record with
          fields := record.fields ++ [{ f with docs := comments }] }, [], finished⟩
        = listing ⟨stage, comments, finished⟩ ++ [.field f] := by
      simp [listing, hs, Record.listing, Field.listing, hdocs]
    rw [hlisting]
    exact hr.concat (.field hc hf)
  | @close stage finished _ record hs hc hfields =>
    have hlisting : listing ⟨.idle, [], finished ++ [record]⟩
        = listing ⟨stage, [], finished⟩ := by
      simp only [listing, hs]
      simp [Stage.record?]
    rw [hlisting]
    exact hr.blank hc

theorem Run.told {lines : List Line} {r r' : Reader} (h : Run r lines r')
    (hr : Told [] r.listing) : Told lines r'.listing :=
  h.preserves (P := fun lines r => Told lines r.listing) (fun hm hline => hline.told hm) [] hr

/-- A reader that stops gives out all it was told. -/
theorem Ends.listing {r : Reader} {records : List Record} (h : Ends r records) :
    Schema.listing ⟨records⟩ = r.listing := by
  cases h with
  | idle => simp [Schema.listing, Reader.listing, Stage.record?]
  | close hs hfields => simp [Schema.listing, Reader.listing, hs]

end Reader

/-- **A schema that was read says what its lines say**, in their order. -/
theorem Schema.told_of_ofLines {lines : List Line} {s : Schema}
    (h : Schema.ofLines lines = .ok s) : Reader.Told lines s.listing := by
  obtain ⟨r, hrun, hends⟩ := Schema.ofLines_eq_ok_iff.1 h
  rw [show s.listing = r.listing from hends.listing]
  exact hrun.told .nil

/-- **The reader accepts its grammar, and loses, invents and moves nothing.** A text is
read just when its lines are those of a schema. What is read then lists just what the
lines say that are not blank, in their order: a comment is one of the declaration
after it, a header is a record at its line, and any other text is the field that is
read off it. -/
theorem Schema.read_grammar_and_listing (text : String) :
    ((∃ s, Schema.read text = .ok s) ↔ Line.ofText text ∈ Grammar.schema)
      ∧ ∀ s, Schema.read text = .ok s →
        List.Forall₂ Line.Says ((Line.ofText text).filter (·.content ≠ .blank)) s.listing :=
  ⟨Schema.exists_ofLines_eq_ok_iff, fun _ hs => Schema.told_of_ofLines hs⟩

/-- A comment, kept across a blank line, before a record with a commented field. -/
def commentedText : String := "\"A point\"\n\nP:\n  \"across\"\n  x u8\n"

theorem isSome_read_commentedText : (Schema.read commentedText).toOption.isSome = true := by
  decide +kernel

theorem listing_commentedText :
    ∃ s, Schema.read commentedText = .ok s
      ∧ List.Forall₂ Line.Says ((Line.ofText commentedText).filter (·.content ≠ .blank))
        s.listing := by
  have hread := isSome_read_commentedText
  cases hs : Schema.read commentedText with
  | error e =>
    rw [hs] at hread
    cases hread
  | ok s => exact ⟨s, rfl, (Schema.read_grammar_and_listing commentedText).2 s hs⟩

end FlatRecord
