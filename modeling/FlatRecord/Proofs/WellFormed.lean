import FlatRecord.Proofs.FieldReading
import FlatRecord.Proofs.ReaderSteps

/-!
# Schemas that were read

A schema that was read is well-formed: each record is named by an identifier and
has at least one field, and each field is well-formed in the sense of
`Field.WellFormed`. The proof is an invariant of the reader (`Reader.Sound`). It
says which of this holds already while a block is open, where a header has no
field yet, and it holds of every reader that can be reached, those after a
rejected line among them (`Reader.sound_afterAll`).
-/

namespace FlatRecord

/-- **A well-formed record.** -/
structure Record.WellFormed (r : Record) : Prop where
  /-- Its name is an identifier. -/
  name : Text.isIdentifier r.name.toList = true
  /-- It has a field. -/
  fields_ne_nil : r.fields ≠ []
  /-- Its fields are well-formed. -/
  fields : ∀ f ∈ r.fields, f.WellFormed

/-- **A well-formed schema**: all its records are. -/
def Schema.WellFormed (s : Schema) : Prop := ∀ r ∈ s.records, r.WellFormed

/-- What holds of the open block: under a header there is no field, and in a block
there is one. -/
def Stage.Sound : Stage → Prop
  | .idle => True
  | .header record => Text.isIdentifier record.name.toList = true ∧ record.fields = []
  | .block record => record.WellFormed

namespace Reader

/-- **The invariant of a reader**: what it has read is well-formed as far as it has
been read. -/
structure Sound (r : Reader) : Prop where
  /-- The open block is well-formed so far. -/
  stage : r.stage.Sound
  /-- The finished records are well-formed. -/
  finished : ∀ record ∈ r.finished, record.WellFormed

theorem sound_fresh : fresh.Sound := ⟨trivial, fun _ h => absurd h List.not_mem_nil⟩

/-- Abandoning a block keeps what is finished. -/
theorem Sound.abandon {r : Reader} (h : r.Sound) : r.abandon.Sound := ⟨trivial, h.finished⟩

/-- The open record has an identifier for a name and well-formed fields, whichever
stage it is in. -/
theorem Sound.openRecord {r : Reader} {record : Record} (h : r.Sound)
    (hs : r.stage.record? = some record) :
    Text.isIdentifier record.name.toList = true ∧ ∀ f ∈ record.fields, f.WellFormed := by
  obtain ⟨stage, comments, finished⟩ := r
  have hstage := h.stage
  cases stage with
  | idle => cases hs
  | header =>
    cases hs
    exact ⟨hstage.1, fun f hf => absurd (hstage.2 ▸ hf) List.not_mem_nil⟩
  | block =>
    cases hs
    exact ⟨hstage.name, hstage.fields⟩

/-- The stage of a record with an identifier for a name and well-formed fields is
sound: it is the number of fields that decides which stage that is. -/
theorem sound_ofRecord {record : Record}
    (hname : Text.isIdentifier record.name.toList = true)
    (hfields : ∀ f ∈ record.fields, f.WellFormed) : (Stage.ofRecord record).Sound := by
  unfold Stage.ofRecord
  split
  · rename_i hempty
    exact ⟨hname, List.isEmpty_iff.1 hempty⟩
  · rename_i hempty
    exact ⟨hname, fun hnil => hempty (List.isEmpty_iff.2 hnil), hfields⟩

/-- **An accepted line keeps the invariant.** -/
theorem Accepts.sound {r r' : Reader} {line : Line} (h : Accepts r line r') (hr : r.Sound) :
    r'.Sound := by
  cases h with
  | blank hc => exact hr
  | comment hc hi => exact ⟨trivial, hr.finished⟩
  | header hc hi hname => exact ⟨⟨hname, rfl⟩, hr.finished⟩
  | innerComment hs hc hi =>
    obtain ⟨hname, hfields⟩ := hr.openRecord hs
    exact ⟨sound_ofRecord hname hfields, hr.finished⟩
  | field hs hc hi hf =>
    obtain ⟨hname, hfields⟩ := hr.openRecord hs
    -- the comments that the field takes are no part of its being well-formed
    have hread := Field.wellFormed_of_read hf
    refine ⟨sound_ofRecord hname fun f hmem => ?_, hr.finished⟩
    rcases List.mem_append.1 hmem with hmem | hmem
    · exact hfields f hmem
    · obtain rfl := List.mem_singleton.1 hmem
      exact ⟨hread.name, hread.type, hread.shape, hread.length⟩
  | close hs hc hne =>
    obtain ⟨hname, hfields⟩ := hr.openRecord hs
    refine ⟨trivial, fun record hmem => ?_⟩
    rcases List.mem_append.1 hmem with hmem | hmem
    · exact hr.finished record hmem
    · obtain rfl := List.mem_singleton.1 hmem
      exact ⟨hname, hne, hfields⟩

/-- **A run keeps the invariant.** -/
theorem Run.sound {r r' : Reader} {lines : List Line} (h : Run r lines r') (hr : r.Sound) :
    r'.Sound :=
  h.preserves (P := fun _ r => r.Sound) (fun hm hline => hline.sound hm) [] hr

/-- The records of a sound reader that stops are well-formed. -/
theorem Ends.wellFormed {r : Reader} {records : List Record} (h : Ends r records)
    (hr : r.Sound) : ∀ record ∈ records, record.WellFormed := by
  cases h with
  | idle => exact hr.finished
  | close hs hne =>
    obtain ⟨hname, hfields⟩ := hr.openRecord hs
    intro record hmem
    rcases List.mem_append.1 hmem with hmem | hmem
    · exact hr.finished record hmem
    · obtain rfl := List.mem_singleton.1 hmem
      exact ⟨hname, hne, hfields⟩

end Reader

/-! ## Readers that go on -/

namespace Reader

/-- **A line keeps the invariant**, be it accepted or rejected. -/
theorem Sound.after {r : Reader} (h : r.Sound) (line : Line) : (r.after line).Sound := by
  rcases accepts_or_rejects r line with ⟨r', hline⟩ | ⟨v, hline⟩
  · rw [hline.after_eq]
    exact hline.sound h
  · rw [hline.after_eq]
    exact h.abandon

/-- So do all lines of a sequence. -/
theorem Sound.afterAll {r : Reader} (h : r.Sound) (lines : List Line) :
    (r.afterAll lines).Sound := by
  induction lines generalizing r with
  | nil => exact h
  | cons line lines ih => exact ih (h.after line)

/-- **A line finishes one record at most**, which is the one that was open. -/
theorem finished_after (r : Reader) (line : Line) :
    (r.after line).finished = r.finished
      ∨ ∃ record, r.stage.record? = some record
        ∧ (r.after line).finished = r.finished ++ [record] := by
  rcases accepts_or_rejects r line with ⟨r', hline⟩ | ⟨v, hline⟩
  · rw [hline.after_eq]
    cases hline with
    | close hs _ _ => exact .inr ⟨_, hs, rfl⟩
    | blank _ | comment _ _ | header _ _ _ | innerComment _ _ _ | field _ _ _ _ => exact .inl rfl
  · rw [hline.after_eq]
    exact .inl rfl

/-- **Whatever lines a reader is fed, it holds well-formed records.** The lines may be of
any numbers and contents and need not come from a text, and the reader goes on behind
those that it rejects. Always there is no field under a header that was just read and at
least one in a block; names are identifiers, and types, shapes and lengths fit, in the
record that is open as in those that are finished, which have a field each. A line
finishes one record at most, behind those before it. So the records that it stops with,
when it may, are a well-formed schema. -/
theorem sound_afterAll (lines : List Line) :
    (fresh.afterAll lines).Sound
      ∧ (∀ line, ((fresh.afterAll lines).after line).finished = (fresh.afterAll lines).finished
          ∨ ∃ record, (fresh.afterAll lines).stage.record? = some record
            ∧ ((fresh.afterAll lines).after line).finished
              = (fresh.afterAll lines).finished ++ [record])
      ∧ ∀ n records, (finish n).result (fresh.afterAll lines) = .ok records →
          Schema.WellFormed ⟨records⟩ := by
  have hsound : (fresh.afterAll lines).Sound := sound_fresh.afterAll lines
  refine ⟨hsound, finished_after _, fun n records hfinish => ?_⟩
  exact (result_finish_eq_ok_iff.1 hfinish).wellFormed hsound

/-- A record within a record, which loses the outer one; a comment and a record that is
named by nothing; and a record that keeps the comment. -/
def strayLines : List Line :=
  [⟨7, false, .header "A"⟩, ⟨0, true, .header "B"⟩, ⟨9, false, .comment "kept"⟩,
    ⟨9, false, .header ""⟩, ⟨3, false, .header "C"⟩, ⟨2, true, .text "s str[4] mut"⟩]

theorem sound_after_strayLines :
    (feedAll strayLines).result fresh = .error ⟨0, .malformed (.nestedRecord "B" "A")⟩
      ∧ ∃ record, (finish 1).result (fresh.afterAll strayLines) = .ok [record]
        ∧ record.docs = ["kept"] ∧ record.WellFormed := by
  obtain ⟨record, hfinish, hdocs⟩ : ∃ record,
      (finish 1).result (fresh.afterAll strayLines) = .ok [record] ∧ record.docs = ["kept"] :=
    ⟨_, rfl, rfl⟩
  obtain ⟨-, -, hwell⟩ := sound_afterAll strayLines
  exact ⟨rfl, record, hfinish, hdocs, hwell 1 _ hfinish record List.mem_cons_self⟩

end Reader

/-- **A schema that was read is well-formed.** -/
theorem Schema.wellFormed_of_ofLines {lines : List Line} {s : Schema}
    (h : Schema.ofLines lines = .ok s) : s.WellFormed := by
  obtain ⟨r, hrun, hends⟩ := Schema.ofLines_eq_ok_iff.1 h
  exact hends.wellFormed (hrun.sound Reader.sound_fresh)

end FlatRecord
