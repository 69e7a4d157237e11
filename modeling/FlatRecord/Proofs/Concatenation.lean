import FlatRecord.Proofs.EndOfText
import FlatRecord.Proofs.Restated

/-!
# One text behind another

Two texts can be put together, with a blank line between them. What is read is what is
read from each: the records of the first, then those of the second, the latter further
down by the lines that now stand before them. Where the second alone is refused, so it is
behind the first, with the same error further down, and a line of the first that is
rejected is rejected whatever comes behind it (`Schema.read_append_eq`). Two texts that
compile come out as what comes out of each, with the same files
(`compile_append_blank_line`). Records know of each other by their names alone, and where
a name of the first comes again in the second, that is what is reported.

At the seam it is one line that matters. Whatever the first text ends with – within a
line, at the end of one, in an open block – the blank line leaves a reader that stands
between blocks with no comment kept (`Reader.Run.closed`). From there on the second text
is read as it would be from the start, with other records in front of its own
(`Reader.Run.behind`), and is refused as it would be (`Reader.Fails.behind`).
-/

namespace FlatRecord

/-! ## Moved declarations -/

/-- A field declared further down. -/
def Field.moved (k : Nat) (f : Field) : Field := { f with line := f.line + k }

/-- A record declared further down. -/
def Record.moved (k : Nat) (r : Record) : Record :=
  { r with line := r.line + k, fields := r.fields.map (Field.moved k) }

/-- A line that stands further down. -/
def Line.moved (k : Nat) (line : Line) : Line := { line with number := line.number + k }

/-- An error further down. -/
def SchemaError.moved (k : Nat) (e : SchemaError) : SchemaError := { e with line := e.line + k }

@[simp] theorem Record.moved_name (k : Nat) (r : Record) : (r.moved k).name = r.name := rfl

/-- A line further down declares the same field there, or breaks the same rule. -/
theorem Field.read_add (text : String) (n k : Nat) :
    Field.read text (n + k) = (Field.read text n).map (Field.moved k) := by
  unfold Field.read
  simp only [bind, Except.bind]
  -- the line is put into the field in the last of the steps, which can all fail before
  cases FieldWords.split text with
  | error v => rfl
  | ok words =>
    dsimp only
    cases TypeToken.read words.type with
    | error v => rfl
    | ok token =>
      dsimp only
      cases ScalarType.find? token.name with
      | none => rfl
      | some type =>
        simp only [Option.elim_some]
        cases token.shapeOver type with
        | error v => rfl
        | ok shape =>
          dsimp only
          split <;> rfl

theorem Field.read_moved {text : String} {n : Nat} {f : Field}
    (h : Field.read text n = .ok f) (k : Nat) :
    Field.read text (n + k) = .ok (f.moved k) := by
  rw [read_add, h]
  rfl

/-- Lines counted from further down are the lines moved there. -/
theorem Line.map_moved_numberFrom (k first : Nat) (texts : List (List Char)) :
    (numberFrom first texts).map (moved k) = numberFrom (first + k) texts := by
  induction texts generalizing first with
  | nil => rfl
  | cons cs texts ih =>
    rw [numberFrom, List.map_cons, ih, numberFrom, Nat.add_right_comm]
    rfl

/-! ## The reader behind other records -/

/-- The stage with its record declared further down. -/
def Stage.moved (k : Nat) : Stage → Stage
  | .idle => .idle
  | .header record => .header (record.moved k)
  | .block record => .block (record.moved k)

theorem Stage.record?_moved (k : Nat) (stage : Stage) :
    (stage.moved k).record? = stage.record?.map (Record.moved k) := by
  cases stage <;> rfl

theorem Stage.record?_moved_of_some (k : Nat) {stage : Stage} {record : Record}
    (h : stage.record? = some record) : (stage.moved k).record? = some (record.moved k) := by
  rw [record?_moved, h]
  rfl

theorem Stage.moved_ofRecord (k : Nat) (record : Record) :
    (Stage.ofRecord record).moved k = .ofRecord (record.moved k) := by
  have hempty : (record.moved k).fields.isEmpty = record.fields.isEmpty := List.isEmpty_map
  unfold Stage.ofRecord
  rw [hempty]
  split <;> rfl

namespace Reader

/-- **A reader behind other records**: it has these in front of its own, which are
further down. -/
def behind (k : Nat) (records : List Record) (r : Reader) : Reader :=
  ⟨r.stage.moved k, r.comments, records ++ r.finished.map (Record.moved k)⟩

/-- **A line is accepted behind other records as it is without them.** -/
theorem Accepts.behind {r r' : Reader} {line : Line} (h : Accepts r line r') (k : Nat)
    (records : List Record) :
    Accepts (r.behind k records) (line.moved k) (r'.behind k records) := by
  have hopen : ∀ {stage : Stage} {record : Record}, stage.record? = some record →
      (stage.moved k).record? = some (record.moved k) := Stage.record?_moved_of_some k
  cases h with
  | blank hc => exact .blank hc
  | comment hc hi => exact .comment hc hi
  | header hc hi hname => exact .header hc hi hname
  | innerComment hs hc hi =>
    unfold Reader.behind
    rw [Stage.moved_ofRecord]
    exact .innerComment (hopen hs) hc hi
  | @field stage comments finished _ record text f hs hc hi hf =>
    have hadd : Accepts
        ⟨stage.moved k, comments, records ++ finished.map (Record.moved k)⟩ (line.moved k) _ :=
      .field (hopen hs) hc hi (Field.read_moved hf k)
    unfold Reader.behind
    rw [Stage.moved_ofRecord]
    unfold Record.moved
    rw [List.map_append]
    exact hadd
  | close hs hc hfields =>
    unfold Reader.behind
    rw [List.map_append, ← List.append_assoc]
    exact .close (hopen hs) hc (List.map_eq_nil_iff.not.2 hfields)

/-- **What is read behind other records is what is read without them.** -/
theorem Run.behind {r r' : Reader} {lines : List Line} (h : Run r lines r') (k : Nat)
    (records : List Record) :
    Run (r.behind k records) (lines.map (Line.moved k)) (r'.behind k records) := by
  induction h with
  | nil => exact .nil
  | cons hline _ ih => exact .cons (hline.behind k records) ih

theorem Ends.behind {r : Reader} {own : List Record} (h : Ends r own) (k : Nat)
    (records : List Record) :
    Ends (r.behind k records) (records ++ own.map (Record.moved k)) := by
  cases h with
  | idle => exact .idle
  | @close stage finished record hs hfields =>
    rw [List.map_append, ← List.append_assoc]
    exact .close (Stage.record?_moved_of_some k hs) (List.map_eq_nil_iff.not.2 hfields)

/-- **A line is rejected behind other records as it is without them.** -/
theorem Rejects.behind {r : Reader} {line : Line} {v : Violation} (h : Rejects r line v) (k : Nat)
    (records : List Record) : Rejects (r.behind k records) (line.moved k) v := by
  have hopen : ∀ {record : Record}, r.stage.record? = some record →
      (r.behind k records).stage.record? = some (record.moved k) := Stage.record?_moved_of_some k
  have hclosed : r.stage.record? = none → (r.behind k records).stage.record? = none := fun hs => by
    rw [Reader.behind, Stage.record?_moved, hs]
    rfl
  cases h with
  | unexpectedIndent hs hc hi => exact .unexpectedIndent (hclosed hs) hc hi
  | invalidName hs hc hi hname => exact .invalidName (hclosed hs) hc hi hname
  | strayText hs hc hi => exact .strayText (hclosed hs) hc hi
  | missingIndent hs hc hi => exact .missingIndent (hopen hs) hc hi
  | @nested record name hs hc hi =>
    have hnested : Rejects (r.behind k records) (line.moved k)
        (.malformed (.nestedRecord name (record.moved k).name)) := .nested (hopen hs) hc hi
    exact hnested
  | @invalidField _ text v hs hc hi hf =>
    have hread : Field.read text (line.moved k).number = .error v :=
      (Field.read_add text line.number k).trans (by rw [hf]; rfl)
    exact .invalidField (hopen hs) hc hi hread
  | orphanedComment hs hc hcomments => exact .orphanedComment (hopen hs) hc hcomments
  | @emptyRecord record hs hc hcomments hfields =>
    have hempty : Rejects (r.behind k records) (line.moved k)
        (.emptyRecord (record.moved k).name) :=
      .emptyRecord (hopen hs) hc hcomments (List.map_eq_nil_iff.2 hfields)
    exact hempty

/-- **What fails behind other records is what fails without them.** -/
theorem Fails.behind {r : Reader} {lines : List Line} {e : SchemaError} (h : Fails r lines e)
    (k : Nat) (records : List Record) :
    Fails (r.behind k records) (lines.map (Line.moved k)) (e.moved k) := by
  induction h with
  | here h => exact .here (h.behind k records)
  | later hline _ ih => exact .later (hline.behind k records) ih

theorem Dangles.behind {r : Reader} {v : Violation} (h : Dangles r v) (k : Nat)
    (records : List Record) : Dangles (r.behind k records) v := by
  cases h with
  | orphanedComment hcomments => exact .orphanedComment hcomments
  | @emptyRecord record hs hcomments hfields =>
    have hempty : Dangles (r.behind k records) (.emptyRecord (record.moved k).name) :=
      .emptyRecord (Stage.record?_moved_of_some k hs) hcomments (List.map_eq_nil_iff.2 hfields)
    exact hempty

end Reader

/-! ## The seam -/

/-- The carriage return at the end of a line has no part in what the line holds, and its
indentation shows without it unless it is all there is. -/
theorem Line.classify_dropReturn (cs : List Char) (n : Nat) :
    (classify (String.ofList (Text.dropReturn cs)) n).content
        = (classify (String.ofList cs) n).content
      ∧ (classify (String.ofList (Text.dropReturn cs)) n = classify (String.ofList cs) n
        ∨ (classify (String.ofList cs) n).content = .blank) := by
  by_cases hlast : cs.getLast? = some '\r'
  · obtain ⟨ds, rfl⟩ := List.getLast?_eq_some_iff.1 hlast
    have hdrop : Text.dropReturn (ds ++ ['\r']) = ds := by
      rw [Text.dropReturn, if_pos hlast, List.dropLast_concat]
    have htrim : Text.trim (ds ++ ['\r']) = Text.trim ds :=
      Text.trim_append_of_blank (List.all_eq_true.1 (by decide))
    rw [hdrop]
    unfold classify
    simp only [String.toList_ofList, htrim]
    refine ⟨trivial, ?_⟩
    cases ds with
    | nil => exact .inr rfl
    | cons d ds => exact .inl rfl
  · rw [Text.dropReturn, if_neg hlast]
    exact ⟨rfl, .inl rfl⟩

namespace Reader

theorem Accepts.dropReturn {r r' : Reader} {cs : List Char} {n : Nat}
    (h : Accepts r (Line.classify (String.ofList cs) n) r') :
    Accepts r (Line.classify (String.ofList (Text.dropReturn cs)) n) r' := by
  obtain ⟨hcontent, hsame | hblank⟩ := Line.classify_dropReturn cs n
  · rwa [hsame]
  · exact h.of_blank hblank (hcontent.trans hblank)

theorem Rejects.dropReturn {r : Reader} {cs : List Char} {n : Nat} {v : Violation}
    (h : Rejects r (Line.classify (String.ofList cs) n) v) :
    Rejects r (Line.classify (String.ofList (Text.dropReturn cs)) n) v := by
  obtain ⟨hcontent, hsame | hblank⟩ := Line.classify_dropReturn cs n
  · rwa [hsame]
  · exact h.of_blank hblank (hcontent.trans hblank)

/-- **A line that is rejected is so behind whatever ends the text**, be it the last one
and not ended itself. -/
theorem Fails.ended {r : Reader} {pieces : List (List Char)} {e : SchemaError} {n : Nat}
    (h : Fails r (Line.numberFrom n (Text.linesOfPieces pieces)) e) :
    Fails r (Line.numberFrom n (pieces.map Text.dropReturn)) e := by
  induction pieces generalizing r n with
  | nil => exact h
  | cons p pieces ih =>
    cases pieces with
    | nil =>
      rw [Text.linesOfPieces] at h
      split at h
      · cases h
      · cases h with
        | here h => exact .here h.dropReturn
        | later _ hlines => cases hlines
    | cons q pieces =>
      rw [Text.linesOfPieces] at h
      · cases h with
        | here h => exact .here h
        | later hline hlines => exact .later hline (ih hlines)
      · exact List.cons_ne_nil q pieces

/-- **A blank line closes a text**, be its last line ended or not. -/
theorem Run.closed {r r' : Reader} {pieces : List (List Char)} {records : List Record} {n : Nat}
    (h : Run r (Line.numberFrom n (Text.linesOfPieces pieces)) r') (hne : pieces ≠ [])
    (hends : Ends r' records) :
    Run r (Line.numberFrom n (pieces.map Text.dropReturn ++ [[]])) ⟨.idle, [], records⟩ := by
  induction pieces generalizing r n with
  | nil => exact absurd rfl hne
  | cons p pieces ih =>
    cases pieces with
    | nil =>
      -- the last piece is no line of its own when it is empty
      have hlast : ∃ m, Accepts r (Line.classify (String.ofList (Text.dropReturn p)) n) m
          ∧ Ends m records := by
        rw [Text.linesOfPieces] at h
        split at h
        · rename_i hempty
          obtain rfl := List.isEmpty_iff.1 hempty
          cases h
          exact ⟨_, hends.accepts_blank rfl, .idle⟩
        · cases h with
          | cons hline hrest =>
            cases hrest
            exact ⟨_, hline.dropReturn, hends⟩
      obtain ⟨m, hline, hm⟩ := hlast
      exact .cons hline (.cons (hm.accepts_blank rfl) .nil)
    | cons q pieces =>
      rw [Text.linesOfPieces] at h
      · cases h with
        | cons hline hrest => exact .cons hline (ih hrest (List.cons_ne_nil q pieces))
      · exact List.cons_ne_nil q pieces

end Reader

/-- The lines of a text, of a blank line and of a text behind it. -/
theorem Line.ofText_append_blank_line (a b : String) :
    Line.ofText (a ++ "\n\n" ++ b)
      = numberFrom 1 ((Text.pieces (· == '\n') a.toList).map Text.dropReturn ++ [[]])
        ++ (Line.ofText b).map (moved (a.toList.count '\n' + 2)) := by
  have htext : (a ++ "\n\n" ++ b).toList = a.toList ++ '\n' :: ([] ++ '\n' :: b.toList) := by
    simp [String.toList_append]
  have hlength : (Text.pieces (· == '\n') a.toList).length = a.toList.count '\n' + 1 :=
    Text.length_pieces _ _
  rw [Line.ofText, htext, Text.lines_append_newline, Text.lines_append_newline,
    ← List.append_assoc, numberFrom_append, Line.ofText, map_moved_numberFrom]
  congr 2
  rw [List.length_append, List.length_map, hlength]
  rfl

/-! ## Schemas -/

namespace Schema

/-- A schema declared further down. -/
def moved (k : Nat) (s : Schema) : Schema := ⟨s.records.map (Record.moved k)⟩

/-- A schema with the records of another behind its own. -/
def append (s s' : Schema) : Schema := ⟨s.records ++ s'.records⟩

/-- A reader that has read a text, with a blank line behind it, goes on from there as a
fresh reader does, behind the records of the text. -/
theorem run_blank_line {a : String} {sa : Schema} (ha : read a = .ok sa) :
    Reader.Run Reader.fresh
      (Line.numberFrom 1 ((Text.pieces (· == '\n') a.toList).map Text.dropReturn ++ [[]]))
      (Reader.fresh.behind (a.toList.count '\n' + 2) sa.records) := by
  obtain ⟨r, hrun, hends⟩ := Schema.ofLines_eq_ok_iff.1 ha
  have hclosed := Reader.Run.closed hrun (Text.pieces_ne_nil _ _) hends
  have hstart : Reader.fresh.behind (a.toList.count '\n' + 2) sa.records
      = ⟨.idle, [], sa.records⟩ :=
    congrArg (Reader.mk .idle []) (List.append_nil sa.records)
  rwa [hstart]

/-- **Two texts with a blank line between them are read one after the other.** -/
theorem read_append_blank_line {a b : String} {sa sb : Schema} (ha : read a = .ok sa)
    (hb : read b = .ok sb) :
    read (a ++ "\n\n" ++ b) = .ok (sa.append (sb.moved (a.toList.count '\n' + 2))) := by
  obtain ⟨r, hrun, hends⟩ := Schema.ofLines_eq_ok_iff.1 hb
  refine Schema.ofLines_eq_ok_iff.2 ⟨_, ?_, hends.behind _ sa.records⟩
  rw [Line.ofText_append_blank_line]
  exact (run_blank_line ha).append (hrun.behind _ sa.records)

/-- **A text that is refused is refused behind another**, further down. -/
theorem read_append_of_error {a b : String} {sa : Schema} {e : SchemaError}
    (ha : read a = .ok sa) (hb : read b = .error e) :
    read (a ++ "\n\n" ++ b) = .error (e.moved (a.toList.count '\n' + 2)) := by
  have hfront := run_blank_line ha
  refine Schema.ofLines_eq_error_iff.2 ?_
  rw [Line.ofText_append_blank_line]
  rcases Schema.ofLines_eq_error_iff.1 hb with hfails | ⟨r, v, hrun, hdangles, rfl⟩
  · exact .inl (hfront.fails (hfails.behind _ sa.records))
  · -- the last line is as far down as the second text is
    refine .inr ⟨_, v, hfront.append (hrun.behind _ sa.records), hdangles.behind _ sa.records, ?_⟩
    rw [List.length_append, Line.length_numberFrom, List.length_append, List.length_map,
      Text.length_pieces, List.length_map]
    exact congrArg (SchemaError.mk · v) (Nat.add_comm _ _)

/-- A text of which a line is rejected is refused for it, and so it is with anything
behind it. -/
theorem read_of_fails {a : String} {e : SchemaError}
    (h : Reader.Fails Reader.fresh (Line.ofText a) e) (b : String) :
    read a = .error e ∧ read (a ++ "\n\n" ++ b) = .error e := by
  refine ⟨Schema.ofLines_of_fails h, Schema.ofLines_of_fails ?_⟩
  rw [Line.ofText_append_blank_line, Line.numberFrom_append]
  exact (h.ended.append _).append _

/-- **Texts are read one after the other, errors included.** Put a text behind one that
is read, with a blank line between them. What is read is the records of the first and
then those of the second, its lines counted on, when the second is read alone; and if it
is refused alone, for whatever reason, so it is here, with its line counted on. And when
a line of the first is rejected, the error for it stays what it is. -/
theorem read_append_eq (a b : String) :
    (∀ sa, read a = .ok sa →
        read (a ++ "\n\n" ++ b)
          = match read b with
            | .ok sb => .ok (sa.append (sb.moved (a.toList.count '\n' + 2)))
            | .error e => .error (e.moved (a.toList.count '\n' + 2)))
      ∧ ∀ e, (Reader.feedAll (Line.ofText a)).result Reader.fresh = .error e →
          read a = .error e ∧ read (a ++ "\n\n" ++ b) = .error e := by
  constructor
  · intro sa ha
    cases hb : read b with
    | ok sb => exact read_append_blank_line ha hb
    | error e => exact read_append_of_error ha hb
  · intro e hfeed
    exact read_of_fails (Reader.result_feedAll_eq_error_iff.1 hfeed) b

/-- A text that is refused, behind one that ends within a line of an open block and
behind one of which a line is rejected. -/
theorem read_append_unknown_type :
    read "B:\n  y u128\n" = .error ⟨2, .unknownType "u128"⟩
      ∧ (∃ sa, read "A:\n  x u8\r" = .ok sa)
      ∧ read ("A:\n  x u8\r" ++ "\n\n" ++ "B:\n  y u128\n") = .error ⟨5, .unknownType "u128"⟩
      ∧ read ("A:\nx u8" ++ "\n\n" ++ "B:\n  y u128\n") = .error ⟨2, .missingIndent⟩ := by
  have hrefused : read "B:\n  y u128\n" = .error ⟨2, .unknownType "u128"⟩ := by decide +kernel
  obtain ⟨sa, ha, -⟩ : ∃ sa, read "A:\n  x u8\r" = .ok sa ∧ True := exists_eq_ok (by decide +kernel)
  have hfeed : (Reader.feedAll (Line.ofText "A:\nx u8")).result Reader.fresh
      = .error ⟨2, .missingIndent⟩ := by decide +kernel
  have hbehind := (read_append_eq "A:\n  x u8\r" "B:\n  y u128\n").1 sa ha
  have hrejected := (read_append_eq "A:\nx u8" "B:\n  y u128\n").2 _ hfeed
  rw [hrefused] at hbehind
  exact ⟨hrefused, ⟨sa, ha⟩, hbehind, hrejected.2⟩

end Schema

/-! ## Names -/

/-- Names of fields are checked as they are further up. -/
theorem Record.checkFields_moved (k : Nat) (r : Record) (earlier fields : List Field) :
    (r.moved k).checkFields (earlier.map (Field.moved k)) (fields.map (Field.moved k))
      = (r.checkFields earlier fields).mapError (SchemaError.moved k) :=
  checkFields_restated (· + k) id r earlier fields

namespace Schema

/-- Names of records are checked first for the ones and then for those behind them. -/
theorem checkRecords_append (earlier before after : List Record) :
    checkRecords earlier (before ++ after)
      = (do
        checkRecords earlier before
        checkRecords (earlier ++ before) after) := by
  induction before generalizing earlier with
  | nil =>
    rw [List.append_nil]
    rfl
  | cons r before ih =>
    rw [List.cons_append, checkRecords, checkRecords]
    cases r.violation? earlier with
    | some v => rfl
    | none =>
      dsimp only
      rw [ih, List.append_assoc, List.singleton_append]
      cases r.checkFields [] r.fields <;> rfl

/-- **Behind other records a record is at fault only for a name among theirs**, when it
is not at fault without them. The first one is reported. -/
theorem checkRecords_behind {others done records : List Record}
    (h : checkRecords done records = .ok ()) (k : Nat) :
    checkRecords (others ++ done.map (Record.moved k)) (records.map (Record.moved k))
      = match records.find? (fun r => others.any (·.name == r.name)) with
        | none => .ok ()
        | some r => .error ⟨r.line + k, .duplicateRecord r.name⟩ := by
  induction records generalizing done with
  | nil => rfl
  | cons r rest ih =>
    have hsplit := fun before q after => checkRecords_eq_ok_iff.1 h before q after
    obtain ⟨hviolation, hfields⟩ := hsplit [] r rest rfl
    rw [List.append_nil, Record.violation?_eq_none_iff] at hviolation
    obtain ⟨hreserved, hdone⟩ := hviolation
    have hrest : checkRecords (done ++ [r]) rest = .ok () := by
      refine checkRecords_eq_ok_iff.2 fun before q after heq => ?_
      rw [List.append_assoc, List.singleton_append]
      exact hsplit (r :: before) q after (congrArg (r :: ·) heq)
    -- what the names before it come to
    have hearlier : (others ++ done.map (Record.moved k)).any (·.name == (r.moved k).name)
        = others.any (·.name == r.name) := by
      have hmoved : (done.map (Record.moved k)).any (·.name == (r.moved k).name) = false := by
        rw [List.any_map]
        exact hdone
      rw [List.any_append, hmoved, Bool.or_false, Record.moved_name]
    rw [List.map_cons, checkRecords, List.find?_cons]
    cases hname : others.any (·.name == r.name) with
    | true =>
      rw [hname] at hearlier
      rw [Record.violation?, hearlier, if_neg (by rw [Record.moved_name, hreserved]; decide),
        if_pos rfl]
      rfl
    | false =>
      have hnone : (r.moved k).violation? (others ++ done.map (Record.moved k)) = none :=
        Record.violation?_eq_none_iff.2 ⟨hreserved, hearlier.trans hname⟩
      have hmoved := Record.checkFields_moved k r [] r.fields
      rw [hfields, List.map_nil] at hmoved
      have hmore := ih hrest
      rw [List.map_append, ← List.append_assoc] at hmore
      rw [hnone]
      show ((r.moved k).checkFields [] (r.fields.map (Field.moved k)) >>= fun _ => _) = _
      rw [hmoved]
      exact hmore

end Schema

/-! ## Files -/

/-- **A record has the file that it has further up.** -/
theorem Record.headerFile_moved {r : Record} {options : Options} {file : HeaderFile}
    (h : r.headerFile options = .ok file) (k : Nat) :
    (r.moved k).headerFile options = .ok file := by
  have hsetter : ∀ m, (id m || options.allMutable) = (m || options.allMutable) := fun _ => rfl
  have hmoved : (r.moved k).headerFile options
      = (r.headerFile options).mapError (SchemaError.moved k) :=
    headerFile_restated (· + k) hsetter r
  rw [hmoved, h]
  rfl

/-- **Texts compile one after the other.** Put two texts that compile together, with a
blank line between them. If no name of a record is in both, what comes out is what comes
out of the first and then what comes out of the second, its lines counted on. Otherwise
the first record of the second with a name of the first is reported, on its line. -/
theorem compile_append_blank_line {a b : String} {options : Options} {ca cb : Compilation}
    (ha : compile a options = .ok ca) (hb : compile b options = .ok cb) :
    compile (a ++ "\n\n" ++ b) options
      = match cb.schema.records.find? (fun r => ca.schema.records.any (·.name == r.name)) with
        | none => .ok ⟨ca.schema.append (cb.schema.moved (a.toList.count '\n' + 2)),
            ca.files ++ cb.files⟩
        | some r => .error ⟨r.line + (a.toList.count '\n' + 2), .duplicateRecord r.name⟩ := by
  obtain ⟨hreadA, hnamesA, hfilesA⟩ := compile_eq_ok_iff.1 ha
  obtain ⟨hreadB, hnamesB, hfilesB⟩ := compile_eq_ok_iff.1 hb
  have hread := Schema.read_append_blank_line hreadA hreadB
  generalize a.toList.count '\n' + 2 = k at hread ⊢
  have hnames : (ca.schema.append (cb.schema.moved k)).checkNames
      = Schema.checkRecords ca.schema.records (cb.schema.records.map (Record.moved k)) := by
    show Schema.checkRecords [] (ca.schema.records ++ _) = _
    rw [Schema.checkRecords_append, show Schema.checkRecords [] ca.schema.records = _ from hnamesA]
    rfl
  have hbehind := @Schema.checkRecords_behind ca.schema.records _ _ hnamesB k
  rw [List.map_nil, List.append_nil, ← hnames] at hbehind
  split
  · rename_i hnone
    rw [hnone] at hbehind
    refine compile_eq_ok_iff.2 ⟨hread, hbehind, ?_⟩
    have hmoved : List.Forall₂ (fun r file => r.headerFile options = .ok file)
        (cb.schema.records.map (Record.moved k)) cb.files :=
      List.forall₂_map_left_iff.2 (hfilesB.imp fun r file hfile => r.headerFile_moved hfile k)
    exact List.rel_append hfilesA hmoved
  · rename_i r hsome
    rw [hsome] at hbehind
    rw [compile, Schema.readChecked, hread]
    show (((ca.schema.append (cb.schema.moved k)).checkNames >>= fun _ => _) >>= fun _ => _) = _
    rw [hbehind]
    rfl

/-- A record with one field of one byte. -/
def singleRecord (name : String) (line : Nat) (docs : List String) : Record :=
  ⟨name, line, docs, [⟨"x", line + 1, [], .scalar, .ofPlain "u8" "uint8_t" 1, false⟩]⟩

/-- A text that ends within a line of an open block, before another record and before
itself. -/
theorem compile_append_open_block :
    ∃ ca cb, compile "A:\n  x u8\r" {} = .ok ca ∧ compile "\"again\"\nB:\n  x u8" {} = .ok cb
      ∧ compile ("A:\n  x u8\r" ++ "\n\n" ++ "\"again\"\nB:\n  x u8") {}
        = .ok ⟨⟨[singleRecord "A" 1 [], singleRecord "B" 5 ["again"]]⟩, ca.files ++ cb.files⟩
      ∧ compile ("A:\n  x u8\r" ++ "\n\n" ++ "A:\n  x u8\r") {}
        = .error ⟨4, .duplicateRecord "A"⟩ := by
  obtain ⟨ca, hca, ha⟩ : ∃ c, compile "A:\n  x u8\r" {} = .ok c
      ∧ c.schema = ⟨[singleRecord "A" 1 []]⟩ :=
    exists_compile_eq_ok (by decide +kernel)
  obtain ⟨cb, hcb, hb⟩ : ∃ c, compile "\"again\"\nB:\n  x u8" {} = .ok c
      ∧ c.schema = ⟨[singleRecord "B" 2 ["again"]]⟩ :=
    exists_compile_eq_ok (by decide +kernel)
  have hother := compile_append_blank_line hca hcb
  have hitself := compile_append_blank_line hca hca
  rw [ha, hb] at hother
  rw [ha] at hitself
  exact ⟨ca, cb, hca, hcb, hother, hitself⟩

end FlatRecord
