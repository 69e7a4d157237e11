import FlatRecord.Proofs.Compilation

/-!
# The first line that is rejected

A text is read line by line, and the first line that breaks a rule ends it. So the
lines up to that one decide the outcome, whatever stands behind them, and the error is
reported at the number of that line and not at that of a header or a comment before it
(`refused_at_first_rejected`). Only where no line is rejected can the end of the text be
at fault: there may be comments left, or a header without a field, and then it is the
last line that is reported.

What makes it so is that a reader knows nothing of the lines to come. A run up to a
rejected line is a failure with anything appended (`Reader.fails_of_take_eq`), and to
read comes before all else when a text is compiled (`compile_of_read_eq_error`).
-/

namespace FlatRecord

namespace Line

/-- The lines of a text are numbered by where they stand in it. -/
theorem number_of_getElem?_ofText {text : String} {i : Nat} {line : Line}
    (h : (ofText text)[i]? = some line) : line.number = i + 1 := by
  rw [ofText, getElem?_numberFrom] at h
  obtain ⟨cs, -, rfl⟩ := Option.map_eq_some_iff.1 h
  exact Nat.add_comm 1 i

/-- The number of the last line is how many lines there are. -/
theorem number_of_getLast?_ofText {text : String} {line : Line}
    (h : (ofText text).getLast? = some line) : line.number = (ofText text).length := by
  have hlast : (ofText text)[(ofText text).length - 1]? = some line :=
    List.getLast?_eq_getElem? ▸ h
  have hpos : 0 < (ofText text).length := List.length_pos_of_mem (List.mem_of_getLast? h)
  rw [number_of_getElem?_ofText hlast]
  exact Nat.sub_add_cancel hpos

/-- Texts that begin with the same lines are read from the same lines. -/
theorem take_ofText_eq {text other : String} {n : Nat}
    (h : (Text.lines other.toList).take n = (Text.lines text.toList).take n) :
    (ofText other).take n = (ofText text).take n := by
  rw [ofText, take_numberFrom, h, ← take_numberFrom, ofText]

end Line

namespace Reader

/-- **Lines that begin alike fail alike**: when a line is rejected behind the lines
before it, so it is in whatever begins with the same lines. -/
theorem fails_of_take_eq {lines other : List Line} {i : Nat} {line : Line} {r r' : Reader}
    {v : Violation} (hline : lines[i]? = some line) (hrun : Run r (lines.take i) r')
    (hrejects : Rejects r' line v) (hsame : other.take (i + 1) = lines.take (i + 1)) :
    Fails r other ⟨line.number, v⟩ := by
  have hother : other = lines.take i ++ line :: other.drop (i + 1) := by
    calc other = other.take (i + 1) ++ other.drop (i + 1) := (List.take_append_drop _ _).symm
      _ = (lines.take i ++ [line]) ++ other.drop (i + 1) := by
        rw [hsame, List.take_add_one, hline, Option.toList_some]
      _ = lines.take i ++ line :: other.drop (i + 1) := (List.append_cons _ _ _).symm
  rw [hother]
  exact hrun.fails (.here hrejects)

/-- What stopping would break is about comments or a record without a field. -/
theorem Dangles.violation_eq {r : Reader} {v : Violation} (h : Dangles r v) :
    v = .orphanedComment ∨ ∃ record, v = .emptyRecord record := by
  cases h with
  | orphanedComment => exact .inl rfl
  | emptyRecord => exact .inr ⟨_, rfl⟩

/-- Without a line there is nothing that stopping could break. -/
theorem Dangles.ne_nil {lines : List Line} {r : Reader} {v : Violation} (h : Dangles r v)
    (hrun : Run fresh lines r) : lines ≠ [] := by
  rintro rfl
  cases hrun
  cases h with
  | orphanedComment hcomments => exact hcomments rfl
  | emptyRecord hs => cases hs

end Reader

/-- A text that cannot be read does not compile, and the error is the same. -/
theorem compile_of_read_eq_error {text : String} {e : SchemaError}
    (h : Schema.read text = .error e) (options : Options) : compile text options = .error e :=
  compile_eq_error_iff.2 (.inl h)

/-- **A text is refused at the first line that is rejected.** When the lines before a
line are accepted and the line is not, the error for it carries its number, and it is
what comes of the text and of any other that begins with the same lines, read or
compiled, whatever follows and whatever the options. When all lines are accepted and the
text is refused all the same, then comments were left or a record without a field, and
the error carries the number of the last line. -/
theorem refused_at_first_rejected (text : String) :
    (∀ i line r r' e, (Line.ofText text)[i]? = some line →
        (Reader.feedAll ((Line.ofText text).take i)).run Reader.fresh = .ok () r →
        (Reader.feed line).run r = .error e r' →
        e.line = i + 1
          ∧ ∀ other : String,
            (Text.lines other.toList).take (i + 1) = (Text.lines text.toList).take (i + 1) →
            Schema.read other = .error e ∧ ∀ options, compile other options = .error e)
      ∧ ∀ r e, (Reader.feedAll (Line.ofText text)).run Reader.fresh = .ok () r →
          Schema.read text = .error e →
          (e.violation = .orphanedComment ∨ ∃ record, e.violation = .emptyRecord record)
            ∧ ∃ last, (Line.ofText text).getLast? = some last ∧ e.line = last.number := by
  constructor
  · intro i line r r' e hline hbefore hfeed
    have hrun := Reader.feedAll_eq_ok_iff.1 hbefore
    obtain ⟨v, hrejects, rfl, -⟩ := Reader.feed_eq_error_iff.1 hfeed
    refine ⟨Line.number_of_getElem?_ofText hline, fun other hsame => ?_⟩
    have hfails := Reader.fails_of_take_eq hline hrun hrejects (Line.take_ofText_eq hsame)
    have hread : Schema.read other = .error ⟨line.number, v⟩ := Schema.ofLines_of_fails hfails
    exact ⟨hread, compile_of_read_eq_error hread⟩
  · intro r e hall hread
    have hrun := Reader.feedAll_eq_ok_iff.1 hall
    rcases Reader.ends_or_dangles r with ⟨records, hends⟩ | ⟨v, hdangles⟩
    · rw [Schema.read, Schema.ofLines_of_ends hrun hends] at hread
      cases hread
    · rw [Schema.read, Schema.ofLines_of_dangles hrun hdangles] at hread
      obtain rfl := Except.error.inj hread
      have hlast := List.getLast?_eq_some_getLast (hdangles.ne_nil hrun)
      exact ⟨hdangles.violation_eq, _, hlast, (Line.number_of_getLast?_ofText hlast).symm⟩

/-- A text with an unknown type on its third line, and more that is wrong behind it. -/
def unknownTypeText : String := "\"doc\"\nA:\n  x u128\n  y optional<str>\n"

/-- A text that ends in a comment. -/
def leftCommentText : String := "A:\n  x u8\n  \"left\""

theorem refused_at_unknown_type :
    (∀ options, compile "\"doc\"\nA:\n  x u128\nB:" options = .error ⟨3, .unknownType "u128"⟩)
      ∧ Schema.read leftCommentText = .error ⟨3, .orphanedComment⟩
      ∧ ∃ last, (Line.ofText leftCommentText).getLast? = some last ∧ 3 = last.number := by
  constructor
  · have hlines : Line.ofText unknownTypeText
        = [⟨1, false, .comment "doc"⟩, ⟨2, false, .header "A"⟩, ⟨3, true, .text "x u128"⟩,
          ⟨4, true, .text "y optional<str>"⟩] := by
      decide +kernel
    have hrun : Reader.Run Reader.fresh [⟨1, false, .comment "doc"⟩, ⟨2, false, .header "A"⟩]
        ⟨.header ⟨"A", 2, ["doc"], []⟩, [], []⟩ :=
      .cons (.comment rfl rfl) (.cons (.header rfl rfl (by decide +kernel)) .nil)
    have hrejects : Reader.Rejects ⟨.header ⟨"A", 2, ["doc"], []⟩, [], []⟩
        ⟨3, true, .text "x u128"⟩ (.unknownType "u128") :=
      .invalidField rfl rfl rfl (by decide +kernel)
    have hrefused := (refused_at_first_rejected unknownTypeText).1 2 _ _ _ _
      (by rw [hlines]; rfl) (by rw [hlines]; exact Reader.feedAll_eq_ok_iff.2 hrun)
      hrejects.run_feed
    exact (hrefused.2 _ (by decide +kernel)).2
  · have hlines : Line.ofText leftCommentText
        = [⟨1, false, .header "A"⟩, ⟨2, true, .text "x u8"⟩, ⟨3, true, .comment "left"⟩] := by
      decide +kernel
    have hall : ∃ r, (Reader.feedAll (Line.ofText leftCommentText)).run Reader.fresh
        = .ok () r := by
      rw [hlines]
      exact ⟨_, rfl⟩
    obtain ⟨r, hall⟩ := hall
    have hread : Schema.read leftCommentText = .error ⟨3, .orphanedComment⟩ := by
      decide +kernel
    exact ⟨hread, ((refused_at_first_rejected _).2 r _ hall hread).2⟩

end FlatRecord
