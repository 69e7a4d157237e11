import FlatRecord.Proofs.Grammar
import FlatRecord.Proofs.Printing

/-!
# Readers behind a rejected line

A line that is rejected costs the record that is open, and nothing else. The reader that
is left stands between blocks, with the finished records and the waiting comments that
it had (`Reader.feed_error_loses_openRecord`). What it was told of the lost record has
left no trace: there are lines without it that lead a fresh reader to the same place,
all of them accepted, and they say the finished records and the waiting comments and
nothing besides.

These lines are the ones that a reader can be told over again, `Reader.retold`. Finished
records are well-formed, so they can be written (`Field.print`), and as no line has to
stand in a text here, each declaration can have the number that it had. The comments
come behind them, between blocks, wherever they stood before.
-/

namespace FlatRecord

/-! ## Telling records over again -/

/-- Lines that say a field, with its comments, at the line that it has. -/
def Field.retold (f : Field) : List Line :=
  Line.ofTexts 1 (f.docs.map fun d => indent (quoted d)) ++ [⟨f.line, true, .text f.print⟩]

/-- Lines that say a record, with its comments, at the line that it has, and close it. -/
def Record.retold (r : Record) : List Line :=
  Line.ofTexts 1 (r.docs.map quoted)
    ++ ⟨r.line, false, .header r.name⟩ :: (r.fields.flatMap Field.retold ++ [⟨1, false, .blank⟩])

namespace Reader

/-- Lines that say what a reader holds between blocks. -/
def retold (r : Reader) : List Line :=
  r.finished.flatMap Record.retold ++ Line.ofTexts 1 (r.comments.map quoted)

variable {finished : List Record}

theorem run_retold_fields {fields : List Field} (h : ∀ f ∈ fields, f.WellFormed)
    (record : Record) :
    Run ⟨.ofRecord record, [], finished⟩ (fields.flatMap Field.retold)
      ⟨.ofRecord { record with fields := record.fields ++ fields }, [], finished⟩ := by
  induction fields generalizing record with
  | nil =>
    rw [List.append_nil]
    exact .nil
  | cons f fields ih =>
    have hf : Run ⟨.ofRecord record, [], finished⟩ f.retold
        ⟨.ofRecord { record with fields := record.fields ++ [f] }, [], finished⟩ :=
      (run_docs_inside record f.docs [] 1).append
        (.cons (.field (Stage.record?_ofRecord record) rfl rfl
          (Field.read_print (h f List.mem_cons_self) f.line)) .nil)
    have hfields := ih (fun g hg => h g (List.mem_cons_of_mem _ hg))
      { record with fields := record.fields ++ [f] }
    rw [List.append_assoc, List.singleton_append] at hfields
    rw [List.flatMap_cons]
    exact hf.append hfields

/-- The lines of a well-formed record finish it, whatever was finished before. -/
theorem run_retold_record {r : Record} (h : r.WellFormed) :
    Run ⟨.idle, [], finished⟩ r.retold ⟨.idle, [], finished ++ [r]⟩ := by
  have hopen : Run ⟨.header ⟨r.name, r.line, r.docs, []⟩, [], finished⟩
      (r.fields.flatMap Field.retold) ⟨.ofRecord r, [], finished⟩ :=
    run_retold_fields h.fields ⟨r.name, r.line, r.docs, []⟩
  have hclose : Run ⟨.ofRecord r, [], finished⟩ [⟨1, false, .blank⟩]
      ⟨.idle, [], finished ++ [r]⟩ :=
    .cons (.close (Stage.record?_ofRecord r) rfl h.fields_ne_nil) .nil
  exact (run_docs_outside r.docs [] 1).append
    (.cons (.header rfl rfl h.name) (hopen.append hclose))

theorem run_retold_records {records : List Record} (h : ∀ r ∈ records, r.WellFormed) :
    Run ⟨.idle, [], finished⟩ (records.flatMap Record.retold)
      ⟨.idle, [], finished ++ records⟩ := by
  induction records generalizing finished with
  | nil =>
    rw [List.append_nil]
    exact .nil
  | cons r records ih =>
    have hrecords := @ih (finished ++ [r]) fun s hs => h s (List.mem_cons_of_mem _ hs)
    rw [List.append_assoc, List.singleton_append] at hrecords
    rw [List.flatMap_cons]
    exact (run_retold_record (h r List.mem_cons_self)).append hrecords

/-- **What a sound reader holds between blocks can be told over again**, to a fresh
reader. -/
theorem Sound.run_retold {r : Reader} (h : r.Sound) : Run fresh r.retold r.abandon :=
  (run_retold_records h.finished).append (run_docs_outside r.comments [] 1)

/-! ## Going on -/

/-- A reader that is led somewhere goes on from there. -/
theorem Run.run_feedAll_append {r m : Reader} {before : List Line} (h : Run r before m)
    (after : List Line) : (feedAll (before ++ after)).run r = (feedAll after).run m := by
  rw [feedAll_append, EStateM.run_bind, feedAll_eq_ok_iff.2 h]

theorem Run.afterAll_eq {r m : Reader} {lines : List Line} (h : Run r lines m) :
    r.afterAll lines = m := by
  induction h with
  | nil => rfl
  | cons hline _ ih =>
    rw [afterAll, List.foldl_cons, hline.after_eq]
    exact ih

/-- **A rejected line costs the open record and nothing else.** Whatever lines a reader
was fed, of any numbers and contents and with others among them that were rejected, when
it rejects one it stands between blocks, and the finished records and the waiting comments
are those it had. So it is a reader that never was in that record: a fresh one comes to be
the same through lines that it accepts and that say these records and comments and
nothing else. And whatever lines come next, the two go on alike, be it up to the next line
that is rejected and to the end, or behind each such line. -/
theorem feed_error_loses_openRecord (lines : List Line) (line : Line) {e : SchemaError}
    {r' : Reader} (h : (feed line).run (fresh.afterAll lines) = .error e r') :
    r'.stage = .idle
      ∧ r'.finished = (fresh.afterAll lines).finished
      ∧ r'.comments = (fresh.afterAll lines).comments
      ∧ ∃ kept, (feedAll kept).run fresh = .ok () r'
        ∧ List.Forall₂ Line.Says (kept.filter (·.content ≠ .blank))
          (r'.finished.flatMap Record.listing ++ r'.comments.map .doc)
        ∧ ∀ more n,
          fresh.afterAll (kept ++ more) = r'.afterAll more
            ∧ (feedAll (kept ++ more) >>= fun _ => finish n).result fresh
              = (feedAll more >>= fun _ => finish n).result r' := by
  obtain ⟨v, -, -, rfl⟩ := feed_eq_error_iff.1 h
  have hsound : (fresh.afterAll lines).Sound := sound_fresh.afterAll lines
  generalize fresh.afterAll lines = r at hsound ⊢
  have hrun : Run fresh r.retold r.abandon := hsound.run_retold
  refine ⟨rfl, rfl, rfl, r.retold, feedAll_eq_ok_iff.2 hrun, ?_, fun more n => ⟨?_, ?_⟩⟩
  · have htold : Told r.retold r.abandon.listing := hrun.told .nil
    have hlisting : r.abandon.listing
        = r.finished.flatMap Record.listing ++ r.comments.map .doc := by
      simp [listing, abandon, Stage.record?]
    rwa [hlisting] at htold
  · rw [afterAll, List.foldl_append]
    exact congrArg (afterAll · more) hrun.afterAll_eq
  · rw [Reading.result, Reading.result, EStateM.run_bind, EStateM.run_bind,
      hrun.run_feedAll_append]

/-- A record, and another one that is not to be finished, with a comment of its own and
one that waits for its second field. -/
def openLines : List Line :=
  [⟨1, false, .header "A"⟩, ⟨2, true, .text "x u8"⟩, ⟨3, false, .blank⟩,
    ⟨4, false, .comment "lost"⟩, ⟨5, false, .header "B"⟩, ⟨6, true, .text "y u8"⟩,
    ⟨7, true, .comment "kept"⟩]

theorem feed_error_behind_openLines :
    ∃ r', (feed ⟨8, true, .text "z u128"⟩).run (fresh.afterAll openLines)
        = .error ⟨8, .unknownType "u128"⟩ r'
      ∧ r'.stage = .idle ∧ r'.comments = ["kept"] ∧ r'.finished.map Record.name = ["A"]
      ∧ ∃ kept, (feedAll kept).run fresh = .ok () r'
        ∧ ∃ items, List.Forall₂ Line.Says (kept.filter (·.content ≠ .blank)) items
          ∧ items.map (fun | .doc text => text | .record name _ => name | .field f => f.name)
            = ["A", "x", "kept"] := by
  obtain ⟨r', hfeed⟩ : ∃ r', (feed ⟨8, true, .text "z u128"⟩).run (fresh.afterAll openLines)
      = .error ⟨8, .unknownType "u128"⟩ r' := ⟨_, rfl⟩
  obtain ⟨hstage, hfinished, hcomments, kept, hkept, hsays, -⟩ :=
    feed_error_loses_openRecord openLines _ hfeed
  refine ⟨r', hfeed, hstage, hcomments, congrArg (List.map Record.name) hfinished, kept, hkept,
    _, hsays, ?_⟩
  rw [hfinished, hcomments]
  rfl

end Reader

end FlatRecord
