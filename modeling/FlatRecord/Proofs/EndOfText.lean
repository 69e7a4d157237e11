import FlatRecord.Proofs.ReaderSteps

/-!
# The end of a text

A blank line closes a block, and so does the end of the text. These are two programs: the
one belongs to reading a line, the other is what stopping does, and what stopping does
between blocks, where waiting comments are refused, no line does at all. Still the end of a
text is a blank line (`Reader.finish_eq_blank_finish`): a reader that stops gives what it
gives when it is fed a blank line first.

For a reader that may stop, the blank line leads between blocks with the same records, and
stopping there gives them (`Ends.accepts_blank`). One that may not is either refused the
blank line, for the rule that stopping would break, or is left as it was, to be refused when
it stops (`Dangles.feed_blank`).
-/

namespace FlatRecord

namespace Reader

/-! ## Blank lines -/

/-- Where a blank line is accepted, any other is. -/
theorem Accepts.of_blank {r r' : Reader} {line line' : Line} (h : Accepts r line r')
    (hc : line.content = .blank) (hc' : line'.content = .blank) : Accepts r line' r' := by
  cases h with
  | blank _ => exact .blank hc'
  | close hs _ hfields => exact .close hs hc' hfields
  | comment hother | header hother | innerComment _ hother | field _ hother =>
    exact absurd (hc.symm.trans hother) nofun

/-- Where a blank line is rejected, any other is. -/
theorem Rejects.of_blank {r : Reader} {line line' : Line} {v : Violation} (h : Rejects r line v)
    (hc : line.content = .blank) (hc' : line'.content = .blank) : Rejects r line' v := by
  cases h with
  | orphanedComment hs _ hcomments => exact .orphanedComment hs hc' hcomments
  | emptyRecord hs _ hcomments hfields => exact .emptyRecord hs hc' hcomments hfields
  | unexpectedIndent _ hother | missingIndent _ hother => exact absurd hc hother
  | invalidName _ hother | strayText _ hother | nested _ hother | invalidField _ hother =>
    exact absurd (hc.symm.trans hother) nofun

/-- A reader that may stop is led between blocks by a blank line. -/
theorem Ends.accepts_blank {r : Reader} {records : List Record} {line : Line}
    (h : Ends r records) (hc : line.content = .blank) :
    Accepts r line ⟨.idle, [], records⟩ := by
  cases h with
  | idle => exact .blank hc
  | close hs hfields => exact .close hs hc hfields

/-- A reader that may not stop is refused a blank line in a block, for the same rule, and
between blocks it is the same behind it. -/
theorem Dangles.feed_blank {r : Reader} {v : Violation} {line : Line} (h : Dangles r v)
    (hc : line.content = .blank) : Rejects r line v ∨ Accepts r line r := by
  obtain ⟨stage, comments, finished⟩ := r
  cases hs : stage.record? with
  | none =>
    obtain rfl := Stage.record?_eq_none_iff.1 hs
    exact .inr (.blank hc)
  | some record =>
    refine .inl ?_
    cases h with
    | orphanedComment hcomments => exact .orphanedComment hs hc hcomments
    | emptyRecord hs hcomments hfields => exact .emptyRecord hs hc hcomments hfields

/-! ## Stopping -/

/-- A reader that stops gives what it gives behind a blank line. -/
theorem result_finish_eq_blank (r : Reader) (n : Nat) (indented : Bool) :
    (finish n).result r
      = (feed ⟨n, indented, .blank⟩ >>= fun _ => finish n).result r := by
  have hc : (⟨n, indented, .blank⟩ : Line).content = .blank := rfl
  rw [Reading.result_bind]
  rcases ends_or_dangles r with ⟨records, hends⟩ | ⟨v, hdangles⟩
  · rw [(hends.accepts_blank hc).run_feed, hends.result_finish]
    exact (Ends.idle.result_finish n).symm
  · rw [hdangles.result_finish]
    rcases hdangles.feed_blank hc with hblank | hblank
    · rw [hblank.run_feed]
    · rw [hblank.run_feed]
      exact (hdangles.result_finish n).symm

/-- **The end of a text is a blank line.** Whatever reader stops, be it fresh, in a block,
or left by lines of which some were rejected, and whatever number it stops at: it gives the
records, or fails with the error, that come of feeding it a blank line of that number,
indented or not, and stopping then; when it is the blank line that is rejected, its error
is the one. So lines that are read to their end, be it up to one that is rejected, are read
the same with a blank line behind them. -/
theorem finish_eq_blank_finish (n : Nat) (indented : Bool) :
    (∀ r : Reader, (finish n).result r
        = (feed ⟨n, indented, .blank⟩ >>= fun _ => finish n).result r)
      ∧ ∀ (r : Reader) (lines : List Line), (feedAll lines >>= fun _ => finish n).result r
        = (feedAll (lines ++ [⟨n, indented, .blank⟩]) >>= fun _ => finish n).result r := by
  refine ⟨fun r => result_finish_eq_blank r n indented, fun r lines => ?_⟩
  have hblank : feedAll [⟨n, indented, .blank⟩] = feed ⟨n, indented, .blank⟩ :=
    bind_pure (feed _)
  rw [feedAll_append, hblank, bind_assoc, Reading.result_bind, Reading.result_bind]
  cases (feedAll lines).run r with
  | error e m => rfl
  | ok u m => exact result_finish_eq_blank m n indented

end Reader

end FlatRecord
