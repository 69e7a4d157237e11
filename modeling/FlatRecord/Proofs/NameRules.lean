import FlatRecord.Proofs.Compilation

/-!
# Which name is at fault

The names of a schema can stand together when a few rules hold, and these have nothing
to do with an order: the names of records differ, those of the fields of a record differ,
and none is taken – by the language, by the base class or, for a field, by its record or
by the constant of a field of that record, wherever it is declared.

An order comes in only where a rule is broken and one declaration has to be named. The
declarations are gone through as they are written, each record before its fields
(`Schema.declarations`), and the first that offends is the one. To offend is to have a
taken name, or to repeat the name of a declaration before it (`Declaration.Offends`). So
of two that share a name the later offends, and the first of two that offend is named,
be it a field of the first record or the second record itself.

`Schema.checkNames_decides` says that checking a schema comes to just that. The check
goes through records and, within each, through fields, with what it has seen so far in
hand. What holds of the one list of all declarations is put together from what holds of
a declaration in front of others (`firstOffence_cons`) and of a record in front of
others (`firstOffence_append`).
-/

namespace FlatRecord

/-- What a schema declares. -/
inductive Declaration where
  /-- A record. -/
  | record (r : Record)
  /-- A field of a record. -/
  | field (r : Record) (f : Field)
deriving DecidableEq, Repr

/-- A record as a declaration, and its fields behind it. -/
def Record.declarations (r : Record) : List Declaration := .record r :: r.fields.map (.field r)

/-- **The declarations of a schema** as they are written. -/
def Schema.declarations (s : Schema) : List Declaration := s.records.flatMap Record.declarations

namespace Declaration

/-- The name that is declared. -/
def name : Declaration → String
  | .record r => r.name
  | .field _ f => f.name

/-- The line of the declaration. -/
def line : Declaration → Nat
  | .record r => r.line
  | .field _ f => f.line

/-- **The name is taken**: it is one of the base class or a keyword or, for a field, the
name of its record or of the constant of a field there, be that declared before or
behind it. -/
def Taken : Declaration → Prop
  | .record r => r.name ∈ runtimeNames ∨ r.name ∈ keywords
  | .field r f =>
    (f.name ∈ runtimeNames ∨ f.name ∈ keywords) ∨ f.name = r.name
      ∨ ∃ g ∈ r.fields, f.name = "offset_" ++ g.name

/-- **The name is repeated**: a record before has it or, for a field, a field before it
under the same header. -/
inductive Repeats : List Declaration → Declaration → Prop
  /-- A record with the name of one before it. -/
  | record {before : List Declaration} {q r : Record} (hq : .record q ∈ before)
      (hname : q.name = r.name) : Repeats before (.record r)
  /-- A field with the name of one of those between it and its header. -/
  | field {before : List Declaration} {r : Record} {fs : List Field} {g f : Field}
      (hg : g ∈ fs) (hname : g.name = f.name) :
      Repeats (before ++ .record r :: fs.map (.field r)) (.field r f)

/-- What is reported of a name that is repeated. -/
def repetition : Declaration → Violation
  | .record r => .duplicateRecord r.name
  | .field r f => .duplicateField r.name f.name

/-- **A declaration that offends** behind others, and what is reported of it. Of a name
that is both taken and repeated it is reported that it is taken. -/
inductive Offends (before : List Declaration) (d : Declaration) : Violation → Prop
  /-- The name is taken. -/
  | taken (h : d.Taken) : Offends before d (.reservedName d.name)
  /-- The name is only repeated. -/
  | repeated (hfree : ¬ d.Taken) (h : Repeats before d) : Offends before d d.repetition

/-- None of some declarations offends behind others. -/
def Clear (before ds : List Declaration) : Prop :=
  ∀ pre d post, ds = pre ++ d :: post → ∀ v, ¬ Offends (before ++ pre) d v

/-- **The first of some declarations to offend** behind others, as an error. -/
def FirstOffence (before ds : List Declaration) (e : SchemaError) : Prop :=
  ∃ pre d post v, ds = pre ++ d :: post ∧ Clear before pre ∧ Offends (before ++ pre) d v
    ∧ e = ⟨d.line, v⟩

/-! ## Declarations in front of others -/

variable {before ds : List Declaration} {d : Declaration} {e : SchemaError}

theorem clear_nil : Clear before [] := fun pre d post h => by simp at h

theorem not_firstOffence_nil : ¬ FirstOffence before [] e := by
  rintro ⟨pre, d, post, v, h, -⟩
  simp at h

theorem clear_cons :
    Clear before (d :: ds) ↔ (∀ v, ¬ Offends before d v) ∧ Clear (before ++ [d]) ds :=
  forall_split_cons (P := fun before d => ∀ v, ¬ Offends before d v)

/-- The first offence is that of the first declaration, or comes later when this does not
offend. -/
theorem firstOffence_cons :
    FirstOffence before (d :: ds) e ↔
      (∃ v, Offends before d v ∧ e = ⟨d.line, v⟩)
        ∨ (∀ v, ¬ Offends before d v) ∧ FirstOffence (before ++ [d]) ds e := by
  constructor
  · rintro ⟨pre, c, post, v, hsplit, hclear, hoffends, he⟩
    cases pre with
    | nil =>
      obtain ⟨rfl, -⟩ := List.cons.inj hsplit
      rw [List.append_nil] at hoffends
      exact .inl ⟨v, hoffends, he⟩
    | cons b pre =>
      obtain ⟨rfl, rfl⟩ := List.cons.inj hsplit
      obtain ⟨hfirst, hrest⟩ := clear_cons.1 hclear
      rw [List.append_cons] at hoffends
      exact .inr ⟨hfirst, pre, c, post, v, rfl, hrest, hoffends, he⟩
  · rintro (⟨v, hoffends, he⟩ | ⟨hfirst, pre, c, post, v, rfl, hrest, hoffends, he⟩)
    · refine ⟨[], d, ds, v, rfl, clear_nil, ?_, he⟩
      rwa [List.append_nil]
    · refine ⟨d :: pre, c, post, v, rfl, clear_cons.2 ⟨hfirst, hrest⟩, ?_, he⟩
      rwa [List.append_cons]

/-- The first offence is among the first declarations, or comes later when none of these
offends. -/
theorem firstOffence_append {ds' : List Declaration} :
    FirstOffence before (ds ++ ds') e ↔
      FirstOffence before ds e ∨ Clear before ds ∧ FirstOffence (before ++ ds) ds' e := by
  induction ds generalizing before with
  | nil =>
    rw [List.nil_append, List.append_nil]
    exact ⟨fun h => .inr ⟨clear_nil, h⟩, fun h => h.elim (absurd · not_firstOffence_nil) And.right⟩
  | cons d ds ih =>
    rw [List.cons_append, firstOffence_cons, ih, firstOffence_cons, clear_cons,
      List.append_cons before d ds, and_or_left, or_assoc, and_assoc]

/-- A name is tested for being taken and then for being repeated, and that is to see
whether the declaration offends. -/
theorem ite_eq_some_iff_offends {taken repeated : Bool} {v : Violation}
    (htaken : d.Taken ↔ taken = true) (hrepeats : Repeats before d ↔ repeated = true) :
    (if taken then some (.reservedName d.name) else if repeated then some d.repetition else none)
        = some v ↔ Offends before d v := by
  constructor
  · intro h
    split at h
    · obtain rfl := Option.some.inj h
      exact .taken (htaken.2 ‹_›)
    · split at h
      · obtain rfl := Option.some.inj h
        exact .repeated (htaken.not.2 ‹_›) (hrepeats.2 ‹_›)
      · cases h
  · intro h
    cases h with
    | taken h => rw [if_pos (htaken.1 h)]
    | repeated hfree h => rw [if_neg (htaken.not.1 hfree), if_pos (hrepeats.1 h)]

end Declaration

open Declaration

/-! ## Fields -/

namespace Record

/-- Declarations are cut in one way at their last header: the fields behind it are the
same. -/
theorem map_field_inj {before before' : List Declaration} {q q' r : Record}
    {fs fs' : List Field}
    (h : before ++ .record q :: fs.map (.field r) = before' ++ .record q' :: fs'.map (.field r)) :
    fs = fs' := by
  have hheader : ∀ (q : Record) (fs : List Field),
      Declaration.record q ∉ fs.map (Declaration.field r) := by
    intro q fs hmem
    obtain ⟨f, -, hf⟩ := List.mem_map.1 hmem
    cases hf
  have hfields : fs.map (Declaration.field r) = fs'.map (Declaration.field r) := by
    -- a header further on in one of the two would be a field of the other
    rcases List.append_eq_append_iff.1 h with ⟨mid, -, hmid⟩ | ⟨mid, -, hmid⟩
    · cases mid with
      | nil => exact (List.cons.inj hmid).2
      | cons c mid =>
        refine absurd ?_ (hheader q' fs)
        rw [(List.cons.inj hmid).2]
        exact List.mem_append_right mid List.mem_cons_self
    · cases mid with
      | nil => exact (List.cons.inj hmid).2.symm
      | cons c mid =>
        refine absurd ?_ (hheader q fs')
        rw [(List.cons.inj hmid).2]
        exact List.mem_append_right mid List.mem_cons_self
  exact List.map_injective_iff.2 (fun f g hfg => (Declaration.field.inj hfg).2) hfields

theorem repeats_field_iff {before : List Declaration} {r : Record} {earlier : List Field}
    {f : Field} :
    Repeats (before ++ .record r :: earlier.map (.field r)) (.field r f)
      ↔ earlier.any (·.name == f.name) = true := by
  rw [List.any_eq_true]
  constructor
  · intro h
    generalize hds : before ++ .record r :: earlier.map (.field r) = ds at h
    cases h with
    | @field _ _ fs g _ hg hname =>
      exact ⟨g, map_field_inj hds ▸ hg, beq_iff_eq.2 hname⟩
  · rintro ⟨g, hg, hname⟩
    exact .field hg (beq_iff_eq.1 hname)

theorem taken_field_iff {r : Record} {f : Field} :
    (Declaration.field r f).Taken
      ↔ (r.hasOffsetConstant f.name || isReserved f.name || f.name == r.name) = true := by
  have hconstant : r.hasOffsetConstant f.name = true
      ↔ ∃ g ∈ r.fields, f.name = "offset_" ++ g.name := by
    rw [hasOffsetConstant_iff, List.mem_map]
    simp only [offsetConstant, eq_comm]
  rw [Bool.or_eq_true, Bool.or_eq_true, hconstant, isReserved_iff, beq_iff_eq]
  exact (or_assoc.trans or_rotate).symm

/-- What is wrong with the name of a field is that it offends. -/
theorem fieldViolation?_eq_some_iff {before : List Declaration} {r : Record}
    {earlier : List Field} {f : Field} {v : Violation} :
    r.fieldViolation? earlier f = some v
      ↔ Offends (before ++ .record r :: earlier.map (.field r)) (.field r f) v :=
  ite_eq_some_iff_offends taken_field_iff repeats_field_iff

/-- None of some fields offends when they are accepted behind others of the record. -/
theorem clear_iff_checkFields {before : List Declaration} {r : Record}
    {earlier fields : List Field} :
    Clear (before ++ .record r :: earlier.map (.field r)) (fields.map (.field r))
      ↔ r.checkFields earlier fields = .ok () := by
  induction fields generalizing earlier with
  | nil => exact ⟨fun _ => rfl, fun _ => clear_nil⟩
  | cons f rest ih =>
    have hrest := @ih (earlier ++ [f])
    rw [List.map_append, List.map_singleton, ← List.cons_append, ← List.append_assoc] at hrest
    rw [List.map_cons, clear_cons, hrest, checkFields]
    simp only [← fieldViolation?_eq_some_iff]
    cases r.fieldViolation? earlier f <;> simp

/-- The error for fields that are refused is that of the first one to offend. -/
theorem firstOffence_iff_checkFields {before : List Declaration} {r : Record}
    {earlier fields : List Field} {e : SchemaError} :
    FirstOffence (before ++ .record r :: earlier.map (.field r)) (fields.map (.field r)) e
      ↔ r.checkFields earlier fields = .error e := by
  induction fields generalizing earlier with
  | nil => exact ⟨fun h => absurd h not_firstOffence_nil, nofun⟩
  | cons f rest ih =>
    have hrest := @ih (earlier ++ [f])
    rw [List.map_append, List.map_singleton, ← List.cons_append, ← List.append_assoc] at hrest
    rw [List.map_cons, firstOffence_cons, hrest, checkFields]
    simp only [← fieldViolation?_eq_some_iff]
    cases r.fieldViolation? earlier f <;> simp [Declaration.line, eq_comm]

end Record

/-! ## Records -/

namespace Schema

/-- The declarations of records. -/
theorem record_mem_declarations {records : List Record} {q : Record} :
    Declaration.record q ∈ records.flatMap Record.declarations ↔ q ∈ records := by
  simp [Record.declarations]

theorem repeats_record_iff {earlier : List Record} {r : Record} :
    Repeats (earlier.flatMap Record.declarations) (.record r)
      ↔ earlier.any (·.name == r.name) = true := by
  rw [List.any_eq_true]
  constructor
  · intro h
    generalize hds : earlier.flatMap Record.declarations = ds at h
    cases h with
    | record hq hname => exact ⟨_, record_mem_declarations.1 (hds ▸ hq), beq_iff_eq.2 hname⟩
  · rintro ⟨q, hq, hname⟩
    exact .record (record_mem_declarations.2 hq) (beq_iff_eq.1 hname)

/-- What is wrong with the name of a record is that it offends. -/
theorem violation?_eq_some_iff {earlier : List Record} {r : Record} {v : Violation} :
    r.violation? earlier = some v
      ↔ Offends (earlier.flatMap Record.declarations) (.record r) v := by
  have htaken : (Declaration.record r).Taken ↔ isReserved r.name = true := isReserved_iff.symm
  exact ite_eq_some_iff_offends htaken repeats_record_iff

/-- **The error for names that are refused is that of the first declaration to offend.** -/
theorem firstOffence_iff_checkRecords {earlier records : List Record} {e : SchemaError} :
    FirstOffence (earlier.flatMap Record.declarations) (records.flatMap Record.declarations) e
      ↔ checkRecords earlier records = .error e := by
  induction records generalizing earlier with
  | nil => exact ⟨fun h => absurd h not_firstOffence_nil, nofun⟩
  | cons r rest ih =>
    have hrest := @ih (earlier ++ [r])
    rw [List.flatMap_append, List.flatMap_singleton, Record.declarations] at hrest
    -- a record is followed by its fields, and these by the records behind it
    have hfields := fun e => @Record.firstOffence_iff_checkFields
      (earlier.flatMap Record.declarations) r [] r.fields e
    have hclear := @Record.clear_iff_checkFields
      (earlier.flatMap Record.declarations) r [] r.fields
    rw [List.map_nil] at hfields hclear
    rw [List.flatMap_cons, Record.declarations, List.cons_append, firstOffence_cons,
      firstOffence_append, hfields, hclear, List.append_assoc, List.singleton_append, hrest,
      checkRecords]
    simp only [← violation?_eq_some_iff]
    cases r.violation? earlier with
    | some v => simp [Declaration.line, eq_comm]
    | none => simp [bind_eq_error, Unique.exists_iff]

/-- Where names differ, no name is among those before it. -/
theorem any_eq_false_of_nodup_map {α : Type} {f : α → String} {l before after : List α} {x : α}
    (h : (l.map f).Nodup) (hsplit : l = before ++ x :: after) :
    before.any (f · == f x) = false := by
  rw [hsplit, List.map_append, List.nodup_append'] at h
  refine Bool.eq_false_iff.2 fun hany => ?_
  obtain ⟨y, hy, hname⟩ := List.any_eq_true.1 hany
  refine h.2.2 (List.mem_map_of_mem hy) ?_
  rw [beq_iff_eq.1 hname]
  exact List.mem_map_of_mem List.mem_cons_self

/-- **Names are accepted when those of records differ and those of each record are
free.** -/
theorem checkNames_eq_ok_iff {s : Schema} :
    s.checkNames = .ok () ↔
      (s.records.map Record.name).Nodup ∧ ∀ r ∈ s.records, r.NamesFree := by
  constructor
  · exact fun h => ⟨nodup_names_of_checkNames h, namesFree_of_checkNames h⟩
  · rintro ⟨hnodup, hfree⟩
    refine checkRecords_eq_ok_iff.2 fun before r after hsplit => ?_
    have hr : r.NamesFree := hfree r (hsplit ▸ List.mem_append_right _ List.mem_cons_self)
    refine ⟨Record.violation?_eq_none_iff.2
      ⟨hr.record, any_eq_false_of_nodup_map hnodup hsplit⟩, ?_⟩
    refine Record.checkFields_eq_ok_iff.2 fun before f after hsplit => ?_
    exact Record.fieldViolation?_eq_none_iff.2
      ⟨hr.fields f (hsplit ▸ List.mem_append_right _ List.mem_cons_self),
        any_eq_false_of_nodup_map hr.nodup hsplit⟩

/-- Names that are refused are refused for the first declaration to offend. -/
theorem checkNames_eq_error_iff {s : Schema} {e : SchemaError} :
    s.checkNames = .error e ↔ FirstOffence [] s.declarations e :=
  (@firstOffence_iff_checkRecords [] s.records e).symm

end Schema

/-- That the names of a record are free can be said of the names alone. -/
theorem Record.namesFree_iff {r : Record} :
    r.NamesFree ↔
      (r.name ∉ runtimeNames ∧ r.name ∉ keywords) ∧ (r.fields.map Field.name).Nodup
        ∧ ∀ f ∈ r.fields, (f.name ∉ runtimeNames ∧ f.name ∉ keywords) ∧ f.name ≠ r.name
          ∧ ∀ g ∈ r.fields, f.name ≠ "offset_" ++ g.name := by
  have hfield : ∀ f : Field, (r.hasOffsetConstant f.name = false ∧ isReserved f.name = false
        ∧ f.name ≠ r.name) ↔ (f.name ∉ runtimeNames ∧ f.name ∉ keywords) ∧ f.name ≠ r.name
          ∧ ∀ g ∈ r.fields, f.name ≠ "offset_" ++ g.name := by
    intro f
    have hconstant : r.hasOffsetConstant f.name = false
        ↔ ∀ g ∈ r.fields, f.name ≠ "offset_" ++ g.name := by
      rw [← Bool.not_eq_true, hasOffsetConstant_iff, List.mem_map]
      simp only [offsetConstant, eq_comm, not_exists, not_and, ne_eq]
    rw [hconstant, isReserved_eq_false_iff, and_rotate]
  rw [← isReserved_eq_false_iff]
  constructor
  · exact fun h => ⟨h.record, h.nodup, fun f hf => (hfield f).1 (h.fields f hf)⟩
  · exact fun ⟨hrecord, hnodup, hfields⟩ =>
      ⟨hrecord, fun f hf => (hfield f).2 (hfields f hf), hnodup⟩

/-- **Checking the names of a schema decides its rules, and names the first declaration
that breaks one.** The schema may be any, read or not. It is accepted just when the names
of its records differ and are not taken, and in each record those of the fields differ,
are not taken, and are neither that of the record nor `offset_` before that of a field in
it. It is refused just for the first of its declarations to offend, gone through as they
are written, on the line of that declaration and by its name. -/
theorem Schema.checkNames_decides (s : Schema) :
    (s.checkNames = .ok () ↔
        (s.records.map Record.name).Nodup
          ∧ ∀ r ∈ s.records,
            (r.name ∉ runtimeNames ∧ r.name ∉ keywords) ∧ (r.fields.map Field.name).Nodup
              ∧ ∀ f ∈ r.fields, (f.name ∉ runtimeNames ∧ f.name ∉ keywords) ∧ f.name ≠ r.name
                ∧ ∀ g ∈ r.fields, f.name ≠ "offset_" ++ g.name)
      ∧ ∀ e, s.checkNames = .error e ↔
          ∃ before d after v, s.declarations = before ++ d :: after ∧ Clear [] before
            ∧ Offends before d v ∧ e = ⟨d.line, v⟩ := by
  constructor
  · simp only [checkNames_eq_ok_iff, Record.namesFree_iff]
  · exact fun e => checkNames_eq_error_iff

/-- A record whose first field is named like the constant of one that is declared behind
it, and whose other fields share a name. -/
def clashingRecord : Record :=
  ⟨"A", 1, [], [⟨"offset_x", 2, [], .scalar, .ofPlain "u8" "uint8_t" 1, false⟩,
    ⟨"x", 3, [], .scalar, .ofPlain "u8" "uint8_t" 1, false⟩,
    ⟨"x", 4, [], .scalar, .ofPlain "u8" "uint8_t" 1, false⟩]⟩

/-- The field is named, not the two behind it nor the record that is declared again. -/
theorem checkNames_clashingRecord :
    Schema.checkNames ⟨[clashingRecord, clashingRecord]⟩
      = .error ⟨2, .reservedName "offset_x"⟩ := by
  have hclear : Clear [] [.record clashingRecord] := by
    refine clear_cons.2 ⟨fun v hoffends => ?_, clear_nil⟩
    have hnone : clashingRecord.violation? [] = none := by decide +kernel
    have hsome := (@Schema.violation?_eq_some_iff [] clashingRecord v).2 hoffends
    exact Option.some_ne_none v (hsome.symm.trans hnone)
  have htaken : (Declaration.field clashingRecord
      ⟨"offset_x", 2, [], .scalar, .ofPlain "u8" "uint8_t" 1, false⟩).Taken :=
    .inr (.inr ⟨⟨"x", 3, [], .scalar, .ofPlain "u8" "uint8_t" 1, false⟩, by decide, by decide⟩)
  exact ((Schema.checkNames_decides _).2 _).2
    ⟨[.record clashingRecord], _, _, _, rfl, hclear, .taken htaken, rfl⟩

end FlatRecord
