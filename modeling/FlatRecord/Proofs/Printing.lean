import FlatRecord.Proofs.FieldPrinting
import FlatRecord.Proofs.WellFormed

/-!
# Schemas as they are written

A schema can be written as a text again (`Schema.print`): each declaration on a line
of its own under its comments, and a blank line between records. The schema with the
lines where its declarations then stand is `Schema.numbered`.

What a line that was written holds is told line by line (`Line.classify_quoted` and
the lemmas after it). From these the run of the reader over the lines of a field, of
a record and of all records is put together, `Reader.run_records`. A comment is never
in danger on the way, whatever it holds: it stands between quotes, so nothing of it
is trimmed, and it is not taken for anything else.
-/

namespace FlatRecord

/-! ## Writing -/

/-- A comment as it is written, between quotes. -/
def quoted (text : String) : String := "\"" ++ text ++ "\""

/-- A line of a block as it is written, behind an indentation. -/
def indent (text : String) : String := "    " ++ text

/-- The lines of a field: its comments, then its declaration. -/
def Field.printed (f : Field) : List String :=
  f.docs.map (fun d => indent (quoted d)) ++ [indent f.print]

/-- The lines of a record: its comments, its header, and its fields. -/
def Record.printed (r : Record) : List String :=
  r.docs.map quoted ++ (r.name ++ ":") :: r.fields.flatMap Field.printed

/-- The lines of records, with a blank line between two. -/
def printRecords : List Record → List String
  | [] => []
  | [r] => r.printed
  | r :: rest => r.printed ++ "" :: printRecords rest

namespace Schema

/-- The lines of a schema. -/
def printed (s : Schema) : List String := printRecords s.records

/-- **A schema as it is written.** -/
def print (s : Schema) : String := String.join (s.printed.map (· ++ "\n"))

end Schema

/-! ## Where declarations stand -/

/-- Fields with the lines they stand on when the first line is given. -/
def numberFields (first : Nat) : List Field → List Field
  | [] => []
  | f :: rest =>
    { f with line := first + f.docs.length } :: numberFields (first + f.printed.length) rest

/-- A record with the lines it stands on when the first line is given. -/
def Record.numberedFrom (r : Record) (first : Nat) : Record :=
  { r with
    line := first + r.docs.length
    fields := numberFields (first + r.docs.length + 1) r.fields }

/-- Records with the lines they stand on when the first line is given. -/
def numberRecords (first : Nat) : List Record → List Record
  | [] => []
  | r :: rest => r.numberedFrom first :: numberRecords (first + r.printed.length + 1) rest

/-- **A schema with the lines it is written on.** -/
def Schema.numbered (s : Schema) : Schema := ⟨numberRecords 1 s.records⟩

/-! ## What a written line holds -/

namespace Line

/-- The texts of consecutive lines, the first with the given number, as lines. -/
def ofTexts (first : Nat) (texts : List String) : List Line :=
  numberFrom first (texts.map String.toList)

theorem ofTexts_cons (first : Nat) (text : String) (texts : List String) :
    ofTexts first (text :: texts) = classify text first :: ofTexts (first + 1) texts := by
  rw [ofTexts, List.map_cons, numberFrom, String.ofList_toList, ofTexts]

theorem ofTexts_append (first : Nat) (before after : List String) :
    ofTexts first (before ++ after)
      = ofTexts first before ++ ofTexts (first + before.length) after := by
  rw [ofTexts, List.map_append, numberFrom_append, List.length_map]
  rfl

theorem toList_quoted (text : String) :
    (quoted text).toList = '"' :: (text.toList ++ ['"']) := by
  simp [quoted, String.toList_append]

/-- A comment between quotes is not trimmed, whatever it begins or ends with. -/
theorem trim_quoted (text : String) : Text.trim (quoted text).toList = (quoted text).toList := by
  have hquote : Text.isBlank '"' = false := by decide
  rw [toList_quoted]
  refine Text.trim_eq_self (fun c hc => ?_) fun c hc => ?_
  · obtain rfl := Option.some.inj hc
    exact hquote
  · rw [← List.cons_append, List.getLast?_concat] at hc
    obtain rfl := Option.some.inj hc
    exact hquote

theorem ofTrimmed_quoted (text : String) :
    LineContent.ofTrimmed (quoted text).toList = .comment text := by
  have hunquoted : unquoted? ('"' :: (text.toList ++ ['"'])) = some text.toList := by
    rw [unquoted?, if_pos List.getLast?_concat, List.dropLast_concat]
  rw [toList_quoted, LineContent.ofTrimmed, hunquoted, if_neg (by simp)]
  exact congrArg LineContent.comment String.ofList_toList

theorem toList_indent (text : String) :
    (indent text).toList = [' ', ' ', ' ', ' '] ++ text.toList := by
  simp [indent, String.toList_append]

theorem startsBlank_indent (text : String) : startsBlank (indent text).toList = true := by
  rw [toList_indent]
  show Text.isBlank ' ' = true
  decide

theorem trim_indent (text : String) :
    Text.trim (indent text).toList = Text.trim text.toList := by
  have hblank : ∀ c ∈ [' ', ' ', ' ', ' '], Text.isBlank c = true :=
    List.all_eq_true.1 (by decide)
  rw [toList_indent, Text.trim, Text.trimStart_append_of_blank hblank, Text.trim]

theorem classify_quoted (text : String) (n : Nat) :
    classify (quoted text) n = ⟨n, false, .comment text⟩ := by
  have hstart : startsBlank (quoted text).toList = false := by
    rw [toList_quoted]
    show Text.isBlank '"' = false
    decide
  rw [classify, hstart, trim_quoted, ofTrimmed_quoted]

theorem classify_indent_quoted (text : String) (n : Nat) :
    classify (indent (quoted text)) n = ⟨n, true, .comment text⟩ := by
  rw [classify, startsBlank_indent, trim_indent, trim_quoted, ofTrimmed_quoted]

/-- A text that begins like an identifier is no comment. -/
theorem unquoted?_eq_none {cs : List Char} {c : Char} (hhead : cs.head? = some c)
    (hc : Text.isIdentifierPart c = true) : unquoted? cs = none := by
  unfold unquoted?
  split
  · obtain rfl := Option.some.inj hhead
    exact absurd hc (by decide)
  · rfl

theorem classify_header {name : String} (h : Text.isIdentifier name.toList = true) (n : Nat) :
    classify (name ++ ":") n = ⟨n, false, .header name⟩ := by
  have htoList : (name ++ ":").toList = name.toList ++ [':'] := by
    simp [String.toList_append]
  obtain ⟨c, cs, hcs⟩ := List.exists_cons_of_ne_nil (Text.isIdentifier_ne_nil h)
  have hpart : Text.isIdentifierPart c = true :=
    Text.isIdentifierPart_of_mem h (hcs ▸ List.mem_cons_self)
  have hblank := Text.isBlank_of_isIdentifierPart hpart
  have hhead : (name.toList ++ [':']).head? = some c := by
    rw [hcs]
    rfl
  have hstart : startsBlank (name.toList ++ [':']) = false := by
    rw [startsBlank, hhead]
    exact hblank
  have htrim : Text.trim (name.toList ++ [':']) = name.toList ++ [':'] := by
    refine Text.trim_eq_self (fun d hd => ?_) fun d hd => ?_
    · obtain rfl := Option.some.inj (hhead.symm.trans hd)
      exact hblank
    · rw [List.getLast?_concat] at hd
      obtain rfl := Option.some.inj hd
      decide
  have hnone := unquoted?_eq_none hhead hpart
  have hne : (name.toList ++ [':']).isEmpty = false := by simp
  rw [classify, htoList, hstart, htrim, LineContent.ofTrimmed, hnone, hne,
    if_neg Bool.false_ne_true]
  dsimp only
  rw [if_pos List.getLast?_concat, List.dropLast_concat, String.ofList_toList]

theorem classify_field {f : Field} (h : f.WellFormed) (n : Nat) :
    classify (indent f.print) n = ⟨n, true, .text f.print⟩ := by
  obtain ⟨c, hhead, hpart⟩ := Field.head?_print h
  have hnone := unquoted?_eq_none hhead hpart
  have hlast : f.print.toList.getLast? ≠ some ':' := fun hcolon =>
    (Field.ne_of_mem_print h ':' (List.mem_of_getLast? hcolon)).1 rfl
  have hne : f.print.toList.isEmpty = false := by
    cases hcs : f.print.toList with
    | nil => rw [hcs] at hhead; cases hhead
    | cons => rfl
  rw [classify, startsBlank_indent, trim_indent, Field.trim_print h, LineContent.ofTrimmed,
    hnone, hne, if_neg Bool.false_ne_true]
  dsimp only
  rw [if_neg hlast, String.ofList_toList]

end Line

/-! ## Reading what was written -/

namespace Reader

variable {finished : List Record}

/-- Comments between blocks are kept. -/
theorem run_docs_outside (docs comments : List String) (n : Nat) :
    Run ⟨.idle, comments, finished⟩ (Line.ofTexts n (docs.map quoted))
      ⟨.idle, comments ++ docs, finished⟩ := by
  induction docs generalizing comments n with
  | nil =>
    rw [List.append_nil]
    exact .nil
  | cons text docs ih =>
    rw [List.map_cons, Line.ofTexts_cons, Line.classify_quoted, List.append_cons]
    exact .cons (.comment rfl rfl) (ih _ _)

/-- Comments in a block are kept. -/
theorem run_docs_inside (record : Record) (docs comments : List String) (n : Nat) :
    Run ⟨.ofRecord record, comments, finished⟩
      (Line.ofTexts n (docs.map fun d => indent (quoted d)))
      ⟨.ofRecord record, comments ++ docs, finished⟩ := by
  induction docs generalizing comments n with
  | nil =>
    rw [List.append_nil]
    exact .nil
  | cons text docs ih =>
    rw [List.map_cons, Line.ofTexts_cons, Line.classify_indent_quoted, List.append_cons]
    exact .cons (.innerComment (Stage.record?_ofRecord record) rfl rfl) (ih _ _)

/-- The lines of a field add it to the open record. -/
theorem run_field {f : Field} (h : f.WellFormed) (record : Record) (n : Nat) :
    Run ⟨.ofRecord record, [], finished⟩ (Line.ofTexts n f.printed)
      ⟨.ofRecord { record with
        fields := record.fields ++ [{ f with line := n + f.docs.length }] }, [], finished⟩ := by
  rw [Field.printed, Line.ofTexts_append, List.length_map]
  refine (run_docs_inside record f.docs [] n).append ?_
  rw [Line.ofTexts_cons, Line.classify_field h]
  exact .cons (.field (Stage.record?_ofRecord record) rfl rfl (Field.read_print h _)) .nil

/-- The lines of fields add these to the open record, in order. -/
theorem run_fields {fields : List Field} (h : ∀ f ∈ fields, f.WellFormed) (record : Record)
    (n : Nat) :
    Run ⟨.ofRecord record, [], finished⟩ (Line.ofTexts n (fields.flatMap Field.printed))
      ⟨.ofRecord { record with fields := record.fields ++ numberFields n fields },
        [], finished⟩ := by
  induction fields generalizing record n with
  | nil =>
    rw [numberFields, List.append_nil]
    exact .nil
  | cons f fields ih =>
    rw [List.flatMap_cons, Line.ofTexts_append, numberFields, List.append_cons]
    exact (run_field (h f List.mem_cons_self) record n).append
      (ih (fun g hg => h g (List.mem_cons_of_mem _ hg)) _ _)

/-- The lines of a record open a block that holds it. -/
theorem run_record {r : Record} (h : r.WellFormed) (n : Nat) :
    Run ⟨.idle, [], finished⟩ (Line.ofTexts n r.printed)
      ⟨.ofRecord (r.numberedFrom n), [], finished⟩ := by
  rw [Record.printed, Line.ofTexts_append, List.length_map]
  refine (run_docs_outside r.docs [] n).append ?_
  rw [Line.ofTexts_cons, Line.classify_header h.name]
  exact .cons (.header rfl rfl h.name)
    (run_fields h.fields ⟨r.name, n + r.docs.length, r.docs, []⟩ (n + r.docs.length + 1))

theorem numberFields_ne_nil {fields : List Field} (h : fields ≠ []) (n : Nat) :
    numberFields n fields ≠ [] := by
  cases fields with
  | nil => exact absurd rfl h
  | cons f fields => exact List.cons_ne_nil _ _

/-- **The lines of records lead to a reader that may stop**, with these records. -/
theorem run_records {records : List Record} (h : ∀ r ∈ records, r.WellFormed) (n : Nat) :
    ∃ r', Run ⟨.idle, [], finished⟩ (Line.ofTexts n (printRecords records)) r'
      ∧ Ends r' (finished ++ numberRecords n records) := by
  induction records generalizing finished n with
  | nil =>
    rw [numberRecords, List.append_nil]
    exact ⟨_, .nil, .idle⟩
  | cons r records ih =>
    have hr := h r List.mem_cons_self
    have hfields : (r.numberedFrom n).fields ≠ [] := numberFields_ne_nil hr.fields_ne_nil _
    cases records with
    | nil =>
      exact ⟨_, run_record hr n, .close (Stage.record?_ofRecord _) hfields⟩
    | cons s records =>
      -- the blank line between two records closes the first
      obtain ⟨r', hrun, hends⟩ := @ih (finished ++ [r.numberedFrom n])
        (fun s hs => h s (List.mem_cons_of_mem _ hs)) (n + r.printed.length + 1)
      rw [List.append_assoc, List.singleton_append] at hends
      refine ⟨r', ?_, hends⟩
      rw [printRecords, Line.ofTexts_append, Line.ofTexts_cons]
      · exact (run_record hr n).append
          (.cons (.close (Stage.record?_ofRecord _) rfl hfields) hrun)
      · exact nofun

end Reader

end FlatRecord
