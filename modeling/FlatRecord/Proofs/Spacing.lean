import FlatRecord.Proofs.ReaderSteps
import Mathlib.Data.List.Forall2
import Mathlib.Data.List.TakeWhile
import Mathlib.Logic.Relation

/-!
# Blanks that do not matter

Of the blanks in a text a reader sees three things: whether a line begins with one,
whether it holds anything else, and where a field line is cut into words. So a text can
be respaced. Blanks at the end of a line come and go, the carriage return of its ending
among them, those in front of it and those between its words are replaced by others, and
a line of blanks is as good as any other (`Line.Respaced`). What is read stays the same,
comments and line numbers included, and so does the line at which a text is refused, and
the rule that is broken there (`Schema.read_respaced`).

A comment and a header are taken as they stand between their ends, so nothing is changed
within them, and a field line is not changed into one of them either: what a line is
shows at its ends. After that it is words that are compared. Lines that agree in all that
a reader sees are `Line.Alike`, an equivalence through which the steps of the reader go.
-/

namespace FlatRecord

/-! ## Blanks within a text -/

namespace Text

variable {a b : List Char}

/-- What comes behind a character that is not blank has no part in the start. -/
theorem trimStart_append_of_not_blank (ha : ∃ c ∈ a, isBlank c = false) (b : List Char) :
    trimStart a ≠ [] ∧ trimStart (a ++ b) = trimStart a ++ b := by
  obtain ⟨c, hc, hblank⟩ := ha
  have hne : trimStart a ≠ [] := fun hnil => by
    have hall := List.dropWhile_eq_nil_iff.1 hnil c hc
    rw [hblank] at hall
    cases hall
  refine ⟨hne, ?_⟩
  rw [trimStart, List.dropWhile_append, if_neg]
  · rfl
  · exact fun hempty => hne (List.isEmpty_iff.1 hempty)

/-- What comes before a character that is not blank has no part in the end. -/
theorem trimEnd_append_of_not_blank (hb : ∃ c ∈ b, isBlank c = false) (a : List Char) :
    trimEnd b ≠ [] ∧ trimEnd (a ++ b) = a ++ trimEnd b := by
  obtain ⟨c, hc, hblank⟩ := hb
  obtain ⟨before, after, rfl⟩ := List.append_of_mem hc
  rw [trimEnd_append_cons hblank, ← List.append_assoc, trimEnd_append_cons hblank,
    List.append_assoc]
  exact ⟨by simp, rfl⟩

end Text

/-! ## What a reader sees of a line -/

/-- **Contents that a reader takes alike**: the same, or texts of the same words. -/
inductive LineContent.Alike : LineContent → LineContent → Prop
  /-- The same. -/
  | same {c : LineContent} : Alike c c
  /-- Texts of the same words. -/
  | text {s s' : String} (h : Text.words s.toList = Text.words s'.toList) :
      Alike (.text s) (.text s')

/-- **Lines that a reader takes alike.** A line of blanks may be indented or not. -/
structure Line.Alike (line line' : Line) : Prop where
  /-- They have one number. -/
  number : line'.number = line.number
  /-- They hold alike contents. -/
  content : line.content.Alike line'.content
  /-- Both are indented, or neither is. -/
  indented : line.content ≠ .blank → line'.indented = line.indented

/-- **Violations that are alike**: the same, or of the same rule by texts of the same
words. -/
inductive Violation.Alike : Violation → Violation → Prop
  /-- The same. -/
  | same {v : Violation} : Alike v v
  /-- Lines that are no declaration of a field. -/
  | fieldWords {s s' : String} (h : Text.words s.toList = Text.words s'.toList) :
      Alike (.malformed (.fieldWords s)) (.malformed (.fieldWords s'))
  /-- Lines that are nothing that may stand between blocks. -/
  | strayText {s s' : String} (h : Text.words s.toList = Text.words s'.toList) :
      Alike (.malformed (.strayText s)) (.malformed (.strayText s'))

namespace LineContent

theorem Alike.trans {c d e : LineContent} (h : c.Alike d) (h' : d.Alike e) : c.Alike e := by
  cases h with
  | same => exact h'
  | text hwords =>
    cases h' with
    | same => exact .text hwords
    | text hwords' => exact .text (hwords.trans hwords')

/-- What is alike to anything but text is that itself. -/
theorem Alike.eq {c d : LineContent} (h : c.Alike d) (hc : ∀ s, c ≠ .text s) : d = c := by
  cases h with
  | same => rfl
  | text => exact absurd rfl (hc _)

theorem Alike.eq_blank_iff {c d : LineContent} (h : c.Alike d) : c = .blank ↔ d = .blank := by
  cases h with
  | same => exact Iff.rfl
  | text => exact ⟨nofun, nofun⟩

/-- What is alike to text is text of the same words. -/
theorem Alike.exists_text {c d : LineContent} (h : c.Alike d) {s : String} (hc : c = .text s) :
    ∃ s', d = .text s' ∧ Text.words s.toList = Text.words s'.toList := by
  cases h with
  | same => exact ⟨s, hc, rfl⟩
  | text hwords =>
    obtain rfl := LineContent.text.inj hc
    exact ⟨_, rfl, hwords⟩

end LineContent

namespace Line

theorem Alike.refl (line : Line) : line.Alike line := ⟨rfl, .same, fun _ => rfl⟩

theorem Alike.trans {line line' line'' : Line} (h : line.Alike line') (h' : line'.Alike line'') :
    line.Alike line'' := by
  refine ⟨h'.number.trans h.number, h.content.trans h'.content, fun hne => ?_⟩
  exact (h'.indented (h.content.eq_blank_iff.not.1 hne)).trans (h.indented hne)

namespace Alike

variable {line line' : Line} {c : LineContent}

theorem content_eq (h : line.Alike line') (hc : line.content = c) (htext : ∀ s, c ≠ .text s) :
    line'.content = c :=
  (h.content.eq (by rwa [hc])).trans hc

theorem indented_eq (h : line.Alike line') (hc : line.content = c) (hne : c ≠ .blank) {b : Bool}
    (hi : line.indented = b) : line'.indented = b :=
  (h.indented (by rwa [hc])).trans hi

end Alike

end Line

/-! ## Alike lines are read alike -/

/-- Texts of the same words declare the same field, or break the same rule. -/
theorem Field.read_of_words_eq {s s' : String} (h : Text.words s.toList = Text.words s'.toList)
    (n : Nat) :
    (∀ f, Field.read s n = .ok f → Field.read s' n = .ok f)
      ∧ ∀ v, Field.read s n = .error v → ∃ v', Field.read s' n = .error v' ∧ v.Alike v' := by
  -- it is the words alone that are read, and the text is only reported
  have hsplit : FieldWords.split s' = FieldWords.split s
      ∨ FieldWords.split s = .error (.malformed (.fieldWords s))
        ∧ FieldWords.split s' = .error (.malformed (.fieldWords s')) := by
    unfold FieldWords.split
    rw [← h]
    split
    · exact .inl rfl
    · exact .inl rfl
    · exact .inr ⟨rfl, rfl⟩
  unfold Field.read
  rcases hsplit with hsame | ⟨hs, hs'⟩
  · rw [hsame]
    exact ⟨fun _ hf => hf, fun v hv => ⟨v, hv, .same⟩⟩
  · rw [hs, hs']
    refine ⟨nofun, fun v hv => ⟨_, rfl, ?_⟩⟩
    obtain rfl := Except.error.inj hv
    exact .fieldWords h

namespace Reader

/-- **A line is accepted when one like it is**, and leads to the same. -/
theorem Accepts.alike {r r' : Reader} {line line' : Line} (h : Accepts r line r')
    (hl : line.Alike line') : Accepts r line' r' := by
  cases h with
  | blank hc => exact .blank (hl.content_eq hc nofun)
  | comment hc hi => exact .comment (hl.content_eq hc nofun) (hl.indented_eq hc nofun hi)
  | header hc hi hname =>
    rw [← hl.number]
    exact .header (hl.content_eq hc nofun) (hl.indented_eq hc nofun hi) hname
  | innerComment hs hc hi =>
    exact .innerComment hs (hl.content_eq hc nofun) (hl.indented_eq hc nofun hi)
  | field hs hc hi hf =>
    obtain ⟨s', hc', hwords⟩ := hl.content.exists_text hc
    have hf' := (Field.read_of_words_eq hwords _).1 _ hf
    exact .field hs hc' (hl.indented_eq hc nofun hi) (hl.number ▸ hf')
  | close hs hc hfields => exact .close hs (hl.content_eq hc nofun) hfields

/-- **A line is rejected when one like it is**, by the same rule. -/
theorem Rejects.alike {r : Reader} {line line' : Line} {v : Violation} (h : Rejects r line v)
    (hl : line.Alike line') : ∃ v', Rejects r line' v' ∧ v.Alike v' := by
  have hnot := hl.content.eq_blank_iff.not
  cases h with
  | unexpectedIndent hs hc hi =>
    exact ⟨_, .unexpectedIndent hs (hnot.1 hc) ((hl.indented hc).trans hi), .same⟩
  | invalidName hs hc hi hname =>
    exact ⟨_, .invalidName hs (hl.content_eq hc nofun) (hl.indented_eq hc nofun hi) hname, .same⟩
  | strayText hs hc hi =>
    obtain ⟨s', hc', hwords⟩ := hl.content.exists_text hc
    exact ⟨_, .strayText hs hc' (hl.indented_eq hc nofun hi), .strayText hwords⟩
  | missingIndent hs hc hi =>
    exact ⟨_, .missingIndent hs (hnot.1 hc) ((hl.indented hc).trans hi), .same⟩
  | nested hs hc hi =>
    exact ⟨_, .nested hs (hl.content_eq hc nofun) (hl.indented_eq hc nofun hi), .same⟩
  | invalidField hs hc hi hf =>
    obtain ⟨s', hc', hwords⟩ := hl.content.exists_text hc
    obtain ⟨v', hf', halike⟩ := (Field.read_of_words_eq hwords _).2 _ hf
    exact ⟨v', .invalidField hs hc' (hl.indented_eq hc nofun hi) (hl.number ▸ hf'), halike⟩
  | orphanedComment hs hc hcomments =>
    exact ⟨_, .orphanedComment hs (hl.content_eq hc nofun) hcomments, .same⟩
  | emptyRecord hs hc hcomments hfields =>
    exact ⟨_, .emptyRecord hs (hl.content_eq hc nofun) hcomments hfields, .same⟩

/-- **Alike lines lead to the same reader.** -/
theorem Run.alike {r r' : Reader} {lines lines' : List Line} (h : Run r lines r')
    (hl : List.Forall₂ Line.Alike lines lines') : Run r lines' r' := by
  induction hl generalizing r with
  | nil => exact h
  | cons hline _ ih =>
    cases h with
    | cons haccepts hrest => exact .cons (haccepts.alike hline) (ih hrest)

/-- **Alike lines fail alike**, and at the same line. -/
theorem Fails.alike {r : Reader} {lines lines' : List Line} {e : SchemaError}
    (h : Fails r lines e) (hl : List.Forall₂ Line.Alike lines lines') :
    ∃ v, Fails r lines' ⟨e.line, v⟩ ∧ e.violation.Alike v := by
  induction hl generalizing r with
  | nil => cases h
  | cons hline _ ih =>
    cases h with
    | here hrejects =>
      obtain ⟨v', hrejects', halike⟩ := hrejects.alike hline
      exact ⟨v', hline.number ▸ .here hrejects', halike⟩
    | later haccepts hrest =>
      obtain ⟨v', hfails, halike⟩ := ih hrest
      exact ⟨v', .later (haccepts.alike hline) hfails, halike⟩

end Reader

/-- **Alike lines are read to the same schema, or refused alike.** -/
theorem Schema.ofLines_alike {lines lines' : List Line}
    (h : List.Forall₂ Line.Alike lines lines') :
    (∀ s, ofLines lines = .ok s → ofLines lines' = .ok s)
      ∧ ∀ e, ofLines lines = .error e →
        ∃ v, ofLines lines' = .error ⟨e.line, v⟩ ∧ e.violation.Alike v := by
  constructor
  · intro s hs
    obtain ⟨r, hrun, hends⟩ := ofLines_eq_ok_iff.1 hs
    exact ofLines_eq_ok_iff.2 ⟨r, hrun.alike h, hends⟩
  · intro e he
    rcases ofLines_eq_error_iff.1 he with hfails | ⟨r, v, hrun, hdangles, rfl⟩
    · obtain ⟨v, hfails', halike⟩ := hfails.alike h
      exact ⟨v, ofLines_eq_error_iff.2 (.inl hfails'), halike⟩
    · rw [h.length_eq]
      exact ⟨v, ofLines_eq_error_iff.2 (.inr ⟨r, v, hrun.alike h, hdangles, rfl⟩), .same⟩

/-! ## Changes of blanks -/

/-- **One change of the blanks of a line.** -/
inductive Line.Respaced : List Char → List Char → Prop
  /-- Blanks at its end are added, removed or replaced. -/
  | trailing (cs : List Char) {s t : List Char} (hs : ∀ c ∈ s, Text.isBlank c = true)
      (ht : ∀ c ∈ t, Text.isBlank c = true) : Respaced (cs ++ s) (cs ++ t)
  /-- Blanks at its start are replaced by others. -/
  | leading (cs : List Char) {s t : List Char} (hs : ∀ c ∈ s, Text.isBlank c = true)
      (ht : ∀ c ∈ t, Text.isBlank c = true) (hne : s ≠ []) (hne' : t ≠ []) :
      Respaced (s ++ cs) (t ++ cs)
  /-- A line of blanks, or an empty one, is replaced by another. -/
  | blank {s t : List Char} (hs : ∀ c ∈ s, Text.isBlank c = true)
      (ht : ∀ c ∈ t, Text.isBlank c = true) : Respaced s t
  /-- Blanks between words are replaced by others, in a line that is neither comment nor
  header. -/
  | gap {a b s t : List Char} {text : String}
      (htext : LineContent.ofTrimmed (Text.trim (a ++ s ++ b)) = .text text)
      (ha : ∃ c ∈ a, Text.isBlank c = false) (hb : ∃ c ∈ b, Text.isBlank c = false)
      (hs : ∀ c ∈ s, Text.isBlank c = true) (ht : ∀ c ∈ t, Text.isBlank c = true)
      (hne : s ≠ []) (hne' : t ≠ []) : Respaced (a ++ s ++ b) (a ++ t ++ b)

/-- **A text respaced**: it has as many lines, and each of them comes of the one in its
place by any number of changes. What ends a line, with a carriage return or without, is no
part of it. -/
def Respaced (t t' : String) : Prop :=
  List.Forall₂ (Relation.ReflTransGen Line.Respaced) (Text.lines t.toList)
    (Text.lines t'.toList)

/-- A line shows at its ends that it is neither comment nor header. -/
theorem LineContent.ofTrimmed_gap {a b s : List Char} {text : String} (ha : a ≠ [])
    (hb : b ≠ []) (h : ofTrimmed (a ++ s ++ b) = .text text) (s' : List Char) :
    String.ofList (a ++ s ++ b) = text
      ∧ ofTrimmed (a ++ s' ++ b) = .text (String.ofList (a ++ s' ++ b)) := by
  obtain ⟨c, a, rfl⟩ := List.exists_cons_of_ne_nil ha
  obtain ⟨⟨-, hunquoted, hcolon⟩, htext⟩ := ofTrimmed_eq_text_iff.1 h
  have hlast : ∀ s : List Char, (c :: a ++ s ++ b).getLast? = b.getLast? := fun s =>
    List.getLast?_append_of_ne_nil _ hb
  have htail : ∀ s : List Char, (c :: a ++ s ++ b).tail.getLast? = b.getLast? := fun s =>
    List.getLast?_append_of_ne_nil _ hb
  refine ⟨htext, ofTrimmed_eq_text_iff.2 ⟨⟨List.cons_ne_nil _ _, ?_, ?_⟩, rfl⟩⟩
  · rw [unquoted?_eq_none_iff, htail] at hunquoted ⊢
    exact hunquoted
  · rw [hlast] at hcolon ⊢
    exact hcolon

namespace Line

theorem classify_ofList (cs : List Char) (n : Nat) :
    classify (String.ofList cs) n = ⟨n, startsBlank cs, .ofTrimmed (Text.trim cs)⟩ := by
  rw [classify, String.toList_ofList]

theorem startsBlank_append {s : List Char} (hs : ∀ c ∈ s, Text.isBlank c = true) (hne : s ≠ [])
    (cs : List Char) : startsBlank (s ++ cs) = true := by
  obtain ⟨c, s, rfl⟩ := List.exists_cons_of_ne_nil hne
  exact hs c List.mem_cons_self

/-- **A change of blanks makes a line like it.** -/
theorem Respaced.alike {cs cs' : List Char} (h : Respaced cs cs') (n : Nat) :
    (classify (String.ofList cs) n).Alike (classify (String.ofList cs') n) := by
  rw [classify_ofList, classify_ofList]
  cases h with
  | trailing cs hs hs' =>
    rw [Text.trim_append_of_blank hs, Text.trim_append_of_blank hs']
    refine ⟨rfl, .same, fun hne => ?_⟩
    cases cs with
    | nil => exact absurd rfl hne
    | cons c cs => rfl
  | leading cs hs hs' hne hne' =>
    rw [startsBlank_append hs hne, startsBlank_append hs' hne', Text.trim, Text.trim,
      Text.trimStart_append_of_blank hs, Text.trimStart_append_of_blank hs']
    exact ⟨rfl, .same, fun _ => rfl⟩
  | blank hs hs' =>
    have hnil : ∀ {s : List Char}, (∀ c ∈ s, Text.isBlank c = true) → Text.trim s = [] :=
      fun {s} hs => @Text.trim_append_of_blank [] s hs
    rw [hnil hs, hnil hs']
    exact ⟨rfl, .same, fun hne => absurd rfl hne⟩
  | @gap a b s s' text htext ha hb hs hs' hne hne' =>
    obtain ⟨hane, hstart⟩ := Text.trimStart_append_of_not_blank ha (s ++ b)
    obtain ⟨-, hstart'⟩ := Text.trimStart_append_of_not_blank ha (s' ++ b)
    obtain ⟨hbne, hend⟩ := Text.trimEnd_append_of_not_blank hb (Text.trimStart a ++ s)
    obtain ⟨-, hend'⟩ := Text.trimEnd_append_of_not_blank hb (Text.trimStart a ++ s')
    have htrim : Text.trim (a ++ s ++ b) = Text.trimStart a ++ s ++ Text.trimEnd b := by
      rw [Text.trim, List.append_assoc, hstart, ← List.append_assoc, hend]
    have htrim' : Text.trim (a ++ s' ++ b) = Text.trimStart a ++ s' ++ Text.trimEnd b := by
      rw [Text.trim, List.append_assoc, hstart', ← List.append_assoc, hend']
    rw [htrim] at htext
    obtain ⟨rfl, htext'⟩ := LineContent.ofTrimmed_gap hane hbne htext s'
    rw [htrim, htrim', htext, htext']
    refine ⟨rfl, .text ?_, fun _ => ?_⟩
    · rw [String.toList_ofList, String.toList_ofList, Text.words_append_gap hs hne,
        Text.words_append_gap hs' hne']
    · cases a with
      | nil => exact absurd rfl hane
      | cons c a => rfl

/-- So do any number of changes. -/
theorem alike_of_reflTransGen {cs cs' : List Char}
    (h : Relation.ReflTransGen Respaced cs cs') (n : Nat) :
    (classify (String.ofList cs) n).Alike (classify (String.ofList cs') n) := by
  induction h with
  | refl => exact .refl _
  | tail _ hstep ih => exact ih.trans (hstep.alike n)

theorem forall₂_alike_numberFrom {texts texts' : List (List Char)}
    (h : List.Forall₂ (Relation.ReflTransGen Respaced) texts texts') (first : Nat) :
    List.Forall₂ Alike (numberFrom first texts) (numberFrom first texts') := by
  induction h generalizing first with
  | nil => exact .nil
  | cons hline _ ih => exact .cons (alike_of_reflTransGen hline first) (ih (first + 1))

end Line

/-! ## Changes between line feeds -/

namespace Text

/-- The carriage return at the end of a line is one of the blanks there. -/
theorem respaced_dropReturn (cs : List Char) :
    Line.Respaced (dropReturn cs) cs ∧ Line.Respaced cs (dropReturn cs) := by
  have hreturn : ∀ c ∈ ['\r'], isBlank c = true := List.all_eq_true.1 (by decide)
  have hnone : ∀ c ∈ ([] : List Char), isBlank c = true := fun _ h => absurd h List.not_mem_nil
  by_cases hlast : cs.getLast? = some '\r'
  · obtain ⟨ds, rfl⟩ := List.getLast?_eq_some_iff.1 hlast
    rw [dropReturn, if_pos hlast, List.dropLast_concat]
    have hadd := Line.Respaced.trailing ds hnone hreturn
    have hremove := Line.Respaced.trailing ds hreturn hnone
    rw [List.append_nil] at hadd hremove
    exact ⟨hadd, hremove⟩
  · rw [dropReturn, if_neg hlast]
    have hsame := Line.Respaced.trailing cs hnone hnone
    rw [List.append_nil] at hsame
    exact ⟨hsame, hsame⟩

theorem forall₂_respaced_linesOfPieces {ps ps' : List (List Char)}
    (h : List.Forall₂ (Relation.ReflTransGen Line.Respaced) ps ps')
    (hlength : (linesOfPieces ps').length = (linesOfPieces ps).length) :
    List.Forall₂ (Relation.ReflTransGen Line.Respaced) (linesOfPieces ps)
      (linesOfPieces ps') := by
  induction h with
  | nil => exact .nil
  | @cons p p' ps ps' hp hrest ih =>
    cases hrest with
    | nil =>
      -- the last piece is a line in both texts or in neither
      unfold linesOfPieces at hlength ⊢
      cases hempty : p.isEmpty <;> cases hempty' : p'.isEmpty <;>
        simp [hempty, hempty'] at hlength ⊢
      exact hp
    | cons hq hrest =>
      rw [linesOfPieces_cons p (List.cons_ne_nil _ _),
        linesOfPieces_cons p' (List.cons_ne_nil _ _)] at hlength ⊢
      refine .cons ?_ (ih (Nat.succ.inj hlength))
      exact (hp.head (respaced_dropReturn p).1).tail (respaced_dropReturn p').2

end Text

/-- **Changes of blanks between line feeds** respace a text when they leave the number of
lines as it is: the carriage returns in front of line feeds are blanks at the end of
lines. -/
theorem respaced_of_pieces {t t' : String}
    (h : List.Forall₂ (Relation.ReflTransGen Line.Respaced) (Text.pieces (· == '\n') t.toList)
      (Text.pieces (· == '\n') t'.toList))
    (hlength : (Text.lines t'.toList).length = (Text.lines t.toList).length) : Respaced t t' :=
  Text.forall₂_respaced_linesOfPieces h hlength

/-! ## Respaced texts are read alike -/

/-- **A respaced text is read to the same schema, or refused alike.** Blanks matter only for
whether a line is indented, and for where words end: change those at the end of lines, the
endings of lines among them, those in front of lines and those between the words of lines
that are neither comments nor headers, and lines of blanks. The text is read just when it
was before, and then the schema is the same, comments and lines included; and where it is
refused, the line is the same and so is the rule, with at most the text of the line
reported with the blanks it now has. -/
theorem Schema.read_respaced {t t' : String} (h : Respaced t t') :
    (∀ s, read t = .ok s ↔ read t' = .ok s)
      ∧ ∀ e, read t = .error e →
        ∃ v, read t' = .error ⟨e.line, v⟩ ∧ e.violation.Alike v := by
  obtain ⟨hok, herror⟩ := Schema.ofLines_alike (Line.forall₂_alike_numberFrom h 1)
  refine ⟨fun s => ⟨hok s, fun hs' => ?_⟩, herror⟩
  cases hs : read t with
  | ok s₁ => exact (hok s₁ hs).symm.trans hs'
  | error e =>
    obtain ⟨v, hv, -⟩ := herror e hs
    cases hs'.symm.trans hv

/-- A text with blanks of many kinds. -/
def spacedText : String := "\"doc \"\r\nA:\r\n\tx   u8[2] mut\r\n \r\nB:\n  y u8\n"

/-- The same text with others. -/
def respacedText : String := "\"doc \"\nA:  \n  x u8[2] mut\n\nB:\r\n\ty u8"

theorem respaced_spacedText : Respaced spacedText respacedText := by
  have blanks {s : List Char} : s.all Text.isBlank = true → ∀ c ∈ s, Text.isBlank c = true :=
    List.all_eq_true.1
  have hlines : Text.lines spacedText.toList
      = ["\"doc \"".toList, "A:".toList, "\tx   u8[2] mut".toList, " ".toList, "B:".toList,
        "  y u8".toList] := by
    decide +kernel
  have hlines' : Text.lines respacedText.toList
      = ["\"doc \"".toList, "A:  ".toList, "  x u8[2] mut".toList, [], "B:".toList,
        "\ty u8".toList] := by
    decide +kernel
  have hheader : Line.Respaced "A:".toList "A:  ".toList :=
    .trailing "A:".toList (s := []) nofun (blanks (by decide))
  have hindent : Line.Respaced "\tx   u8[2] mut".toList "  x   u8[2] mut".toList :=
    .leading "x   u8[2] mut".toList (s := ['\t']) (t := [' ', ' ']) (blanks (by decide))
      (blanks (by decide)) nofun nofun
  have hgap : Line.Respaced "  x   u8[2] mut".toList "  x u8[2] mut".toList :=
    .gap (a := "  x".toList) (b := "u8[2] mut".toList) (s := [' ', ' ', ' ']) (t := [' '])
      (show _ = LineContent.text "x   u8[2] mut" by decide +kernel) ⟨'x', by decide, rfl⟩
      ⟨'u', by decide, rfl⟩ (blanks (by decide)) (blanks (by decide)) nofun nofun
  have hlast : Line.Respaced "  y u8".toList "\ty u8".toList :=
    .leading "y u8".toList (s := [' ', ' ']) (t := ['\t']) (blanks (by decide))
      (blanks (by decide)) nofun nofun
  have hblank : Line.Respaced " ".toList [] := .blank (blanks (by decide)) nofun
  rw [Respaced, hlines, hlines']
  exact .cons .refl (.cons (.single hheader) (.cons (.tail (.single hindent) hgap)
    (.cons (.single hblank) (.cons .refl (.cons (.single hlast) .nil)))))

/-- Fewer blanks between four words, and no carriage returns. -/
theorem respaced_fourWords :
    Respaced "A:\r\n x  u8 mut mut\r\n" "A:\n x u8 mut mut\n" := by
  have blanks {s : List Char} : s.all Text.isBlank = true → ∀ c ∈ s, Text.isBlank c = true :=
    List.all_eq_true.1
  have hpieces : Text.pieces (· == '\n') "A:\r\n x  u8 mut mut\r\n".toList
      = ["A:\r".toList, " x  u8 mut mut\r".toList, []] := by
    decide +kernel
  have hpieces' : Text.pieces (· == '\n') "A:\n x u8 mut mut\n".toList
      = ["A:".toList, " x u8 mut mut".toList, []] := by
    decide +kernel
  have hheader : Line.Respaced "A:\r".toList "A:".toList :=
    .trailing "A:".toList (s := ['\r']) (t := []) (blanks (by decide)) nofun
  have hgap : Line.Respaced " x  u8 mut mut\r".toList " x u8 mut mut\r".toList :=
    .gap (a := " x".toList) (b := "u8 mut mut\r".toList) (s := [' ', ' ']) (t := [' '])
      (show _ = LineContent.text "x  u8 mut mut" by decide +kernel) ⟨'x', by decide, rfl⟩
      ⟨'u', by decide, rfl⟩ (blanks (by decide)) (blanks (by decide)) nofun nofun
  have hend : Line.Respaced " x u8 mut mut\r".toList " x u8 mut mut".toList :=
    .trailing " x u8 mut mut".toList (s := ['\r']) (t := []) (blanks (by decide)) nofun
  refine respaced_of_pieces ?_ (by decide +kernel)
  rw [hpieces, hpieces']
  exact .cons (.single hheader) (.cons (.tail (.single hgap) hend) (.cons .refl .nil))

theorem read_respaced_spacedText :
    Respaced spacedText respacedText
      ∧ (∃ s, Schema.read spacedText = .ok s ∧ Schema.read respacedText = .ok s
        ∧ s.records.map Record.docs = [["doc "], []] ∧ s.records.map Record.line = [2, 5])
      ∧ Respaced "A:\r\n x  u8 mut mut\r\n" "A:\n x u8 mut mut\n"
      ∧ Schema.read "A:\r\n x  u8 mut mut\r\n"
        = .error ⟨2, .malformed (.fieldWords "x  u8 mut mut")⟩
      ∧ ∃ v, Schema.read "A:\n x u8 mut mut\n" = .error ⟨2, v⟩
        ∧ Violation.Alike (.malformed (.fieldWords "x  u8 mut mut")) v := by
  have hread : Schema.read spacedText
      = .ok ⟨[⟨"A", 2, ["doc "], [⟨"x", 3, [], .array 2, .ofPlain "u8" "uint8_t" 1, true⟩]⟩,
        ⟨"B", 5, [], [⟨"y", 6, [], .scalar, .ofPlain "u8" "uint8_t" 1, false⟩]⟩]⟩ := by
    decide +kernel
  have hrefused : Schema.read "A:\r\n x  u8 mut mut\r\n"
      = .error ⟨2, .malformed (.fieldWords "x  u8 mut mut")⟩ := by
    decide +kernel
  exact ⟨respaced_spacedText,
    ⟨_, hread, ((Schema.read_respaced respaced_spacedText).1 _).1 hread, rfl, rfl⟩,
    respaced_fourWords, hrefused, (Schema.read_respaced respaced_fourWords).2 _ hrefused⟩

end FlatRecord
