import FlatRecord.Reader

/-!
# What a reader does with a line

A reader is a program in steps, and its steps are many small actions on its
state. What comes of a whole line can be said without them. Either the line is
accepted, in one of six ways that lead to one next reader each (`Accepts`), or it
breaks one rule (`Rejects`) and leaves a reader that stands between blocks with
the comments and the finished records it had. `accepts_or_rejects` says
that there is nothing else.

A run is a sequence of accepted lines, and a text is read when a run over its
lines ends in a reader that may stop there (`Ends`). It is refused when a run meets
a line that is rejected (`Fails`), or ends in a reader that may not stop
(`Dangles`). So `ofLines_eq_ok_iff` and `ofLines_eq_error_iff` replace the program
by relations, and all that follows about schemas that were read, and those that
were not, is an induction on a run.
-/

namespace FlatRecord

/-- The record of the block that is open, if one is. -/
def Stage.record? : Stage → Option Record
  | .idle => none
  | .header record => some record
  | .block record => some record

/-- A block is open at every stage but between blocks. -/
theorem Stage.record?_eq_none_iff {stage : Stage} : stage.record? = none ↔ stage = .idle := by
  cases stage <;> simp [record?]

@[simp] theorem Stage.record?_ofRecord (record : Record) :
    (Stage.ofRecord record).record? = some record := by
  unfold Stage.ofRecord
  split <;> rfl

/-- A step behind another has the result of the step, from where the other leads. -/
theorem Reading.result_bind {α β : Type} (x : Reading α) (f : α → Reading β) (r : Reader) :
    (x >>= f).result r
      = match x.run r with
        | .ok a m => (f a).result m
        | .error e _ => .error e := by
  rw [Reading.result, EStateM.run_bind]
  cases x.run r <;> rfl

namespace Reader

/-- **An accepted line**, and the reader it leads to. -/
inductive Accepts : Reader → Line → Reader → Prop
  /-- A blank line between blocks changes nothing. -/
  | blank {comments : List String} {finished : List Record} {line : Line}
      (hc : line.content = .blank) :
      Accepts ⟨.idle, comments, finished⟩ line ⟨.idle, comments, finished⟩
  /-- A comment between blocks is kept. -/
  | comment {comments : List String} {finished : List Record} {line : Line} {text : String}
      (hc : line.content = .comment text) (hi : line.indented = false) :
      Accepts ⟨.idle, comments, finished⟩ line ⟨.idle, comments ++ [text], finished⟩
  /-- A header opens a block and takes the comments. -/
  | header {comments : List String} {finished : List Record} {line : Line} {name : String}
      (hc : line.content = .header name) (hi : line.indented = false)
      (hname : Text.isIdentifier name.toList = true) :
      Accepts ⟨.idle, comments, finished⟩ line
        ⟨.header ⟨name, line.number, comments, []⟩, [], finished⟩
  /-- A comment in a block is kept. -/
  | innerComment {stage : Stage} {comments : List String} {finished : List Record}
      {line : Line} {record : Record} {text : String} (hs : stage.record? = some record)
      (hc : line.content = .comment text) (hi : line.indented = true) :
      Accepts ⟨stage, comments, finished⟩ line
        ⟨.ofRecord record, comments ++ [text], finished⟩
  /-- A field line adds a field, which takes the comments. -/
  | field {stage : Stage} {comments : List String} {finished : List Record}
      {line : Line} {record : Record} {text : String} {f : Field}
      (hs : stage.record? = some record) (hc : line.content = .text text)
      (hi : line.indented = true) (hf : Field.read text line.number = .ok f) :
      Accepts ⟨stage, comments, finished⟩ line
        ⟨.ofRecord { record with fields := record.fields ++ [{ f with docs := comments }] },
          [], finished⟩
  /-- A blank line closes a block that has a field and no comment left. -/
  | close {stage : Stage} {finished : List Record} {line : Line} {record : Record}
      (hs : stage.record? = some record) (hc : line.content = .blank)
      (hfields : record.fields ≠ []) :
      Accepts ⟨stage, [], finished⟩ line ⟨.idle, [], finished ++ [record]⟩

/-- **A rejected line**, and the rule it breaks. -/
inductive Rejects : Reader → Line → Violation → Prop
  /-- An indented line between blocks. -/
  | unexpectedIndent {r : Reader} {line : Line} (hs : r.stage.record? = none)
      (hc : line.content ≠ .blank) (hi : line.indented = true) :
      Rejects r line .unexpectedIndent
  /-- A header that does not name a record. -/
  | invalidName {r : Reader} {line : Line} {name : String} (hs : r.stage.record? = none)
      (hc : line.content = .header name) (hi : line.indented = false)
      (hname : Text.isIdentifier name.toList = false) :
      Rejects r line (.invalidIdentifier name)
  /-- Other text between blocks. -/
  | strayText {r : Reader} {line : Line} {text : String} (hs : r.stage.record? = none)
      (hc : line.content = .text text) (hi : line.indented = false) :
      Rejects r line (.malformed (.strayText text))
  /-- A line in a block that is not indented. -/
  | missingIndent {r : Reader} {line : Line} {record : Record}
      (hs : r.stage.record? = some record) (hc : line.content ≠ .blank)
      (hi : line.indented = false) :
      Rejects r line .missingIndent
  /-- A header in a block. -/
  | nested {r : Reader} {line : Line} {record : Record} {name : String}
      (hs : r.stage.record? = some record) (hc : line.content = .header name)
      (hi : line.indented = true) :
      Rejects r line (.malformed (.nestedRecord name record.name))
  /-- A line in a block that does not declare a field. -/
  | invalidField {r : Reader} {line : Line} {record : Record} {text : String} {v : Violation}
      (hs : r.stage.record? = some record) (hc : line.content = .text text)
      (hi : line.indented = true) (hf : Field.read text line.number = .error v) :
      Rejects r line v
  /-- A blank line after comments in a block. -/
  | orphanedComment {r : Reader} {line : Line} {record : Record}
      (hs : r.stage.record? = some record) (hc : line.content = .blank)
      (hcomments : r.comments ≠ []) :
      Rejects r line .orphanedComment
  /-- A blank line right after a header. -/
  | emptyRecord {r : Reader} {line : Line} {record : Record}
      (hs : r.stage.record? = some record) (hc : line.content = .blank)
      (hcomments : r.comments = []) (hfields : record.fields = []) :
      Rejects r line (.emptyRecord record.name)

/-- The reader that a rejected line leaves: the open block is lost, the comments
and the finished records are not. -/
def abandon (r : Reader) : Reader := { r with stage := .idle }

/-! ## Steps -/

/-- Feeding a line is reading it from between blocks, or in the block that is
open. -/
theorem run_feed (r : Reader) (line : Line) :
    (feed line).run r
      = match r.stage.record? with
        | none => (feedOutside line >>= enter).run r.abandon
        | some record => (feedInside record line >>= enter).run r.abandon := by
  obtain ⟨stage, comments, finished⟩ := r
  cases stage <;> rfl

/-- Closing a block with comments waiting fails. -/
theorem run_close_of_comments {r : Reader} (h : r.comments ≠ []) (record : Record) (n : Nat) :
    (close record n).run r = .error ⟨n, .orphanedComment⟩ r := by
  have hempty : r.comments.isEmpty = false := List.isEmpty_eq_false_iff.2 h
  simp only [close, EStateM.run_bind, EStateM.run_get, hempty]
  rfl

/-- Closing a block without a field fails. -/
theorem run_close_of_empty {r : Reader} {record : Record} (h : r.comments = [])
    (hfields : record.fields = []) (n : Nat) :
    (close record n).run r = .error ⟨n, .emptyRecord record.name⟩ r := by
  simp only [close, EStateM.run_bind, EStateM.run_get, h, hfields]
  rfl

/-- Closing any other block finishes its record. -/
theorem run_close {r : Reader} {record : Record} (h : r.comments = [])
    (hfields : record.fields ≠ []) (n : Nat) :
    (close record n).run r = .ok () { r with finished := r.finished ++ [record] } := by
  have hempty : record.fields.isEmpty = false := List.isEmpty_eq_false_iff.2 hfields
  obtain ⟨stage, comments, finished⟩ := r
  obtain rfl : comments = [] := h
  simp only [close, EStateM.run_bind, EStateM.run_get, hempty]
  rfl

/-- What is said of an accepted line is what the reader does with it. -/
theorem Accepts.run_feed {r r' : Reader} {line : Line} (h : Accepts r line r') :
    (feed line).run r = .ok () r' := by
  obtain ⟨number, indented, content⟩ := line
  rw [Reader.run_feed]
  cases h with
  | blank hc =>
    cases hc
    rfl
  | comment hc hi =>
    cases hc
    cases hi
    rfl
  | header hc hi hname =>
    cases hc
    cases hi
    simp only [Stage.record?, feedOutside, hname]
    rfl
  | innerComment hs hc hi =>
    cases hc
    cases hi
    simp only [hs]
    rfl
  | field hs hc hi hf =>
    cases hc
    cases hi
    simp only [hs, feedInside, show Field.read _ number = _ from hf]
    rfl
  | @close stage finished line record hs hc hfields =>
    cases hc
    simp only [hs, feedInside, EStateM.run_bind,
      run_close (r := abandon ⟨stage, [], finished⟩) rfl hfields]
    rfl

/-- What is said of a rejected line is what the reader does with it. -/
theorem Rejects.run_feed {r : Reader} {line : Line} {v : Violation} (h : Rejects r line v) :
    (feed line).run r = .error ⟨line.number, v⟩ r.abandon := by
  obtain ⟨number, indented, content⟩ := line
  rw [Reader.run_feed]
  cases h with
  | unexpectedIndent hs hc hi =>
    cases hi
    simp only [hs]
    cases content with
    | blank => exact absurd rfl hc
    | comment | header | text => rfl
  | invalidName hs hc hi hname =>
    cases hc
    cases hi
    simp only [hs, feedOutside, hname]
    rfl
  | strayText hs hc hi =>
    cases hc
    cases hi
    simp only [hs]
    rfl
  | missingIndent hs hc hi =>
    cases hi
    simp only [hs]
    cases content with
    | blank => exact absurd rfl hc
    | comment | header | text => rfl
  | nested hs hc hi =>
    cases hc
    cases hi
    simp only [hs]
    rfl
  | invalidField hs hc hi hf =>
    cases hc
    cases hi
    simp only [hs, feedInside, show Field.read _ number = _ from hf]
    rfl
  | orphanedComment hs hc hcomments =>
    cases hc
    simp only [hs, feedInside, EStateM.run_bind,
      run_close_of_comments (r := r.abandon) hcomments]
  | emptyRecord hs hc hcomments hfields =>
    cases hc
    simp only [hs, feedInside, EStateM.run_bind,
      run_close_of_empty (r := r.abandon) hcomments hfields]

/-- **Every line is accepted or rejected.** -/
theorem accepts_or_rejects (r : Reader) (line : Line) :
    (∃ r', Accepts r line r') ∨ ∃ v, Rejects r line v := by
  obtain ⟨stage, comments, finished⟩ := r
  cases hs : stage.record? with
  | none =>
    obtain rfl := Stage.record?_eq_none_iff.1 hs
    -- a blank line is looked at before its indentation, here and in a block
    by_cases hblank : line.content = .blank
    · exact .inl ⟨_, .blank hblank⟩
    cases hi : line.indented with
    | true => exact .inr ⟨_, .unexpectedIndent hs hblank hi⟩
    | false =>
      cases hc : line.content with
      | blank => exact absurd hc hblank
      | comment text => exact .inl ⟨_, .comment hc hi⟩
      | header name =>
        cases hname : Text.isIdentifier name.toList with
        | true => exact .inl ⟨_, .header hc hi hname⟩
        | false => exact .inr ⟨_, .invalidName hs hc hi hname⟩
      | text text => exact .inr ⟨_, .strayText hs hc hi⟩
  | some record =>
    by_cases hblank : line.content = .blank
    · by_cases hcomments : comments = []
      · subst hcomments
        by_cases hfields : record.fields = []
        · exact .inr ⟨_, .emptyRecord hs hblank rfl hfields⟩
        · exact .inl ⟨_, .close hs hblank hfields⟩
      · exact .inr ⟨_, .orphanedComment hs hblank hcomments⟩
    cases hi : line.indented with
    | false => exact .inr ⟨_, .missingIndent hs hblank hi⟩
    | true =>
      cases hc : line.content with
      | blank => exact absurd hc hblank
      | comment text => exact .inl ⟨_, .innerComment hs hc hi⟩
      | header name => exact .inr ⟨_, .nested hs hc hi⟩
      | text text =>
        cases hf : Field.read text line.number with
        | ok f => exact .inl ⟨_, .field hs hc hi hf⟩
        | error v => exact .inr ⟨_, .invalidField hs hc hi hf⟩

theorem feed_eq_ok_iff {r r' : Reader} {line : Line} :
    (feed line).run r = .ok () r' ↔ Accepts r line r' := by
  refine ⟨fun h => ?_, Accepts.run_feed⟩
  rcases accepts_or_rejects r line with ⟨m, hm⟩ | ⟨v, hv⟩
  · rw [hm.run_feed] at h
    obtain rfl : m = r' := (EStateM.Result.ok.inj h).2
    exact hm
  · rw [hv.run_feed] at h
    cases h

/-- A line that is not accepted is rejected, and the rule it breaks is reported at
its number. -/
theorem feed_eq_error_iff {r r' : Reader} {line : Line} {e : SchemaError} :
    (feed line).run r = .error e r'
      ↔ ∃ v, Rejects r line v ∧ e = ⟨line.number, v⟩ ∧ r' = r.abandon := by
  constructor
  · intro h
    rcases accepts_or_rejects r line with ⟨m, hm⟩ | ⟨v, hv⟩
    · rw [hm.run_feed] at h
      cases h
    · rw [hv.run_feed] at h
      obtain ⟨rfl, rfl⟩ := EStateM.Result.error.inj h
      exact ⟨v, hv, rfl, rfl⟩
  · rintro ⟨v, hv, rfl, rfl⟩
    exact hv.run_feed

/-- The reader after a line, be it accepted or rejected. -/
def after (r : Reader) (line : Line) : Reader :=
  match (feed line).run r with
  | .ok _ r' | .error _ r' => r'

theorem Accepts.after_eq {r r' : Reader} {line : Line} (h : Accepts r line r') :
    r.after line = r' := by
  rw [after, h.run_feed]

theorem Rejects.after_eq {r : Reader} {line : Line} {v : Violation} (h : Rejects r line v) :
    r.after line = r.abandon := by
  rw [after, h.run_feed]

/-- The reader after lines that it is fed one by one, going on behind those that it
rejects. -/
def afterAll (r : Reader) (lines : List Line) : Reader := lines.foldl after r

/-! ## Runs -/

/-- **A run**: lines that are accepted one after the other. -/
inductive Run : Reader → List Line → Reader → Prop
  /-- No line leads nowhere. -/
  | nil {r : Reader} : Run r [] r
  /-- An accepted line leads to the run from where it leads. -/
  | cons {r m r' : Reader} {line : Line} {lines : List Line} (hline : Accepts r line m)
      (hlines : Run m lines r') : Run r (line :: lines) r'

theorem Run.append {r m r' : Reader} {before after : List Line} (hbefore : Run r before m)
    (hafter : Run m after r') : Run r (before ++ after) r' := by
  induction hbefore with
  | nil => exact hafter
  | cons hline _ ih => exact .cons hline (ih hafter)

/-- **What every accepted line preserves, a run preserves.** The statement may
speak of the lines read so far. -/
theorem Run.preserves {P : List Line → Reader → Prop}
    (hstep : ∀ {done : List Line} {r r' : Reader} {line : Line}, P done r →
      Accepts r line r' → P (done ++ [line]) r')
    {r r' : Reader} {lines : List Line} (h : Run r lines r') (done : List Line)
    (h0 : P done r) : P (done ++ lines) r' := by
  induction h generalizing done with
  | nil => rwa [List.append_nil]
  | cons hline _ ih =>
    rw [List.append_cons]
    exact ih _ (hstep h0 hline)

theorem feedAll_eq_ok_iff {r r' : Reader} {lines : List Line} :
    (feedAll lines).run r = .ok () r' ↔ Run r lines r' := by
  induction lines generalizing r with
  | nil =>
    constructor
    · intro h
      obtain rfl : r = r' := (EStateM.Result.ok.inj h).2
      exact .nil
    · rintro ⟨⟩
      rfl
  | cons line lines ih =>
    rw [feedAll, EStateM.run_bind]
    constructor
    · intro h
      cases hfeed : (feed line).run r with
      | ok u m =>
        rw [hfeed] at h
        exact .cons (feed_eq_ok_iff.1 hfeed) (ih.1 h)
      | error e m =>
        rw [hfeed] at h
        cases h
    · intro h
      cases h with
      | cons hline hlines =>
        rw [hline.run_feed]
        exact ih.2 hlines

/-- Lines behind others are fed when these have been. -/
theorem feedAll_append (before after : List Line) :
    feedAll (before ++ after) = (feedAll before >>= fun _ => feedAll after) := by
  induction before with
  | nil => rfl
  | cons line before ih => rw [List.cons_append, feedAll, feedAll, ih, bind_assoc]

/-- **A run that fails**: lines that are accepted up to one that is rejected, and the
error for it. -/
inductive Fails : Reader → List Line → SchemaError → Prop
  /-- The first line is rejected. -/
  | here {r : Reader} {line : Line} {lines : List Line} {v : Violation}
      (h : Rejects r line v) : Fails r (line :: lines) ⟨line.number, v⟩
  /-- The first line is accepted, and a later one is rejected. -/
  | later {r m : Reader} {line : Line} {lines : List Line} {e : SchemaError}
      (hline : Accepts r line m) (hlines : Fails m lines e) : Fails r (line :: lines) e

/-- What comes behind a rejected line does not matter. -/
theorem Fails.append {r : Reader} {before : List Line} {e : SchemaError}
    (h : Fails r before e) (after : List Line) : Fails r (before ++ after) e := by
  induction h with
  | here h => exact .here h
  | later hline _ ih => exact .later hline ih

/-- A run goes on to a failure. -/
theorem Run.fails {r m : Reader} {before after : List Line} {e : SchemaError}
    (hbefore : Run r before m) (hafter : Fails m after e) : Fails r (before ++ after) e := by
  induction hbefore with
  | nil => exact hafter
  | cons hline _ ih => exact .later hline (ih hafter)

/-- A run that fails is a run up to the line that is rejected. -/
theorem Fails.exists_run {r : Reader} {lines : List Line} {e : SchemaError}
    (h : Fails r lines e) :
    ∃ before line after r' v, lines = before ++ line :: after ∧ Run r before r'
      ∧ Rejects r' line v ∧ e = ⟨line.number, v⟩ := by
  induction h with
  | here h => exact ⟨[], _, _, _, _, rfl, .nil, h, rfl⟩
  | @later r m line lines e hline _ ih =>
    obtain ⟨before, rejected, after, r', v, rfl, hrun, hrejects, rfl⟩ := ih
    exact ⟨line :: before, rejected, after, r', v, rfl, .cons hline hrun, hrejects, rfl⟩

/-- **Every run comes to its end or fails.** -/
theorem run_or_fails (r : Reader) (lines : List Line) :
    (∃ r', Run r lines r') ∨ ∃ e, Fails r lines e := by
  induction lines generalizing r with
  | nil => exact .inl ⟨r, .nil⟩
  | cons line lines ih =>
    rcases accepts_or_rejects r line with ⟨m, hm⟩ | ⟨v, hv⟩
    · rcases ih m with ⟨r', hrun⟩ | ⟨e, hfails⟩
      · exact .inl ⟨r', .cons hm hrun⟩
      · exact .inr ⟨e, .later hm hfails⟩
    · exact .inr ⟨_, .here hv⟩

theorem Fails.run_feedAll {r : Reader} {lines : List Line} {e : SchemaError}
    (h : Fails r lines e) : ∃ r', (feedAll lines).run r = .error e r' := by
  induction h with
  | here h =>
    rw [feedAll, EStateM.run_bind, h.run_feed]
    exact ⟨_, rfl⟩
  | later hline _ ih =>
    rw [feedAll, EStateM.run_bind, hline.run_feed]
    exact ih

theorem Fails.result_feedAll {r : Reader} {lines : List Line} {e : SchemaError}
    (h : Fails r lines e) : (feedAll lines).result r = .error e := by
  obtain ⟨r', hr'⟩ := h.run_feedAll
  simp only [Reading.result, hr']

theorem result_feedAll_eq_error_iff {r : Reader} {lines : List Line} {e : SchemaError} :
    (feedAll lines).result r = .error e ↔ Fails r lines e := by
  refine ⟨fun h => ?_, Fails.result_feedAll⟩
  rcases run_or_fails r lines with ⟨m, hrun⟩ | ⟨e', hfails⟩
  · rw [Reading.result, feedAll_eq_ok_iff.2 hrun] at h
    cases h
  · rw [hfails.result_feedAll] at h
    exact Except.error.inj h ▸ hfails

/-! ## Ends -/

/-- **A reader that may stop**, and the records it has read. -/
inductive Ends : Reader → List Record → Prop
  /-- Between blocks, with no comment left. -/
  | idle {finished : List Record} : Ends ⟨.idle, [], finished⟩ finished
  /-- In a block that could be closed. -/
  | close {stage : Stage} {finished : List Record} {record : Record}
      (hs : stage.record? = some record) (hfields : record.fields ≠ []) :
      Ends ⟨stage, [], finished⟩ (finished ++ [record])

/-- **A reader that may not stop**, and the rule that stopping would break. -/
inductive Dangles : Reader → Violation → Prop
  /-- Comments are left, in a block or between blocks. -/
  | orphanedComment {r : Reader} (hcomments : r.comments ≠ []) : Dangles r .orphanedComment
  /-- The open block has no field. -/
  | emptyRecord {r : Reader} {record : Record} (hs : r.stage.record? = some record)
      (hcomments : r.comments = []) (hfields : record.fields = []) :
      Dangles r (.emptyRecord record.name)

/-- Stopping is closing the block that is open, if one is. -/
theorem result_finish (r : Reader) (n : Nat) :
    (finish n).result r
      = match r.stage.record? with
        | none => if r.comments.isEmpty then .ok r.finished else .error ⟨n, .orphanedComment⟩
        | some record => (close record n >>= fun _ => return (← get).finished).result r := by
  obtain ⟨stage, comments, finished⟩ := r
  cases stage with
  | idle => cases comments <;> rfl
  | header record | block record => rfl

theorem Ends.result_finish {r : Reader} {records : List Record} (h : Ends r records) (n : Nat) :
    (finish n).result r = .ok records := by
  rw [Reader.result_finish]
  cases h with
  | idle => rfl
  | @close stage finished record hs hfields =>
    have hclose := run_close (r := ⟨stage, [], finished⟩) rfl hfields n
    simp only [hs, Reading.result, EStateM.run_bind, hclose]
    rfl

theorem Dangles.result_finish {r : Reader} {v : Violation} (h : Dangles r v) (n : Nat) :
    (finish n).result r = .error ⟨n, v⟩ := by
  rw [Reader.result_finish]
  cases h with
  | orphanedComment hcomments =>
    have hempty : r.comments.isEmpty = false := List.isEmpty_eq_false_iff.2 hcomments
    cases r.stage.record? with
    | none => simp [hempty]
    | some record =>
      simp only [Reading.result, EStateM.run_bind, run_close_of_comments hcomments]
  | emptyRecord hs hcomments hfields =>
    simp only [hs, Reading.result, EStateM.run_bind, run_close_of_empty hcomments hfields]

/-- **Every reader may stop or may not.** -/
theorem ends_or_dangles (r : Reader) : (∃ records, Ends r records) ∨ ∃ v, Dangles r v := by
  obtain ⟨stage, comments, finished⟩ := r
  cases comments with
  | cons text comments => exact .inr ⟨_, .orphanedComment (List.cons_ne_nil _ _)⟩
  | nil =>
    cases hs : stage.record? with
    | none =>
      obtain rfl := Stage.record?_eq_none_iff.1 hs
      exact .inl ⟨_, .idle⟩
    | some record =>
      by_cases hfields : record.fields = []
      · exact .inr ⟨_, .emptyRecord hs rfl hfields⟩
      · exact .inl ⟨_, .close hs hfields⟩

theorem result_finish_eq_ok_iff {r : Reader} {records : List Record} {n : Nat} :
    (finish n).result r = .ok records ↔ Ends r records := by
  refine ⟨fun h => ?_, fun h => h.result_finish n⟩
  rcases ends_or_dangles r with ⟨rs, hrs⟩ | ⟨v, hv⟩
  · rw [hrs.result_finish] at h
    exact Except.ok.inj h ▸ hrs
  · rw [hv.result_finish] at h
    cases h

end Reader

namespace Schema

variable {lines : List Line} {r : Reader}

theorem ofLines_of_run (h : Reader.Run Reader.fresh lines r) :
    ofLines lines = ((Reader.finish lines.length).result r).map Schema.mk := by
  simp only [ofLines, Reading.result, EStateM.run_bind, Reader.feedAll_eq_ok_iff.2 h]

theorem ofLines_of_ends {records : List Record} (hrun : Reader.Run Reader.fresh lines r)
    (hends : Reader.Ends r records) : ofLines lines = .ok ⟨records⟩ := by
  rw [ofLines_of_run hrun, hends.result_finish]
  rfl

theorem ofLines_of_dangles {v : Violation} (hrun : Reader.Run Reader.fresh lines r)
    (hdangles : Reader.Dangles r v) : ofLines lines = .error ⟨lines.length, v⟩ := by
  rw [ofLines_of_run hrun, hdangles.result_finish]
  rfl

theorem ofLines_of_fails {e : SchemaError} (h : Reader.Fails Reader.fresh lines e) :
    ofLines lines = .error e := by
  obtain ⟨r, hr⟩ := h.run_feedAll
  simp only [ofLines, Reading.result, EStateM.run_bind, hr]
  rfl

/-- **Lines are read to a schema by a run from the fresh reader** to one that may
stop. -/
theorem ofLines_eq_ok_iff {s : Schema} :
    ofLines lines = .ok s ↔
      ∃ r, Reader.Run Reader.fresh lines r ∧ Reader.Ends r s.records := by
  refine ⟨fun h => ?_, fun ⟨r, hrun, hends⟩ => ofLines_of_ends hrun hends⟩
  rcases Reader.run_or_fails Reader.fresh lines with ⟨r, hrun⟩ | ⟨e, hfails⟩
  · rcases Reader.ends_or_dangles r with ⟨records, hends⟩ | ⟨v, hdangles⟩
    · rw [ofLines_of_ends hrun hends] at h
      cases h
      exact ⟨r, hrun, hends⟩
    · rw [ofLines_of_dangles hrun hdangles] at h
      cases h
  · rw [ofLines_of_fails hfails] at h
    cases h

/-- **Lines are refused by a run from the fresh reader** that fails, or that ends in a
reader which may not stop. It is the last line that is reported then. -/
theorem ofLines_eq_error_iff {e : SchemaError} :
    ofLines lines = .error e ↔
      Reader.Fails Reader.fresh lines e
        ∨ ∃ r v, Reader.Run Reader.fresh lines r ∧ Reader.Dangles r v
          ∧ e = ⟨lines.length, v⟩ := by
  constructor
  · intro h
    rcases Reader.run_or_fails Reader.fresh lines with ⟨r, hrun⟩ | ⟨e', hfails⟩
    · rcases Reader.ends_or_dangles r with ⟨records, hends⟩ | ⟨v, hdangles⟩
      · rw [ofLines_of_ends hrun hends] at h
        cases h
      · rw [ofLines_of_dangles hrun hdangles] at h
        exact .inr ⟨r, v, hrun, hdangles, (Except.error.inj h).symm⟩
    · rw [ofLines_of_fails hfails] at h
      exact .inl (Except.error.inj h ▸ hfails)
  · rintro (hfails | ⟨r, v, hrun, hdangles, rfl⟩)
    · exact ofLines_of_fails hfails
    · exact ofLines_of_dangles hrun hdangles

end Schema

end FlatRecord
