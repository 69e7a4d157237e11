import FlatRecord.Text.Pieces

/-!
# Lines

A line ends at a line feed, and a carriage return directly before that line
feed belongs to the ending. What follows the last line feed is a line of its
own unless it is empty, and there no carriage return is taken off: it ends
nothing.
-/

namespace FlatRecord.Text

/-- The text without one carriage return at its end. -/
def dropReturn (cs : List Char) : List Char :=
  if cs.getLast? = some '\r' then cs.dropLast else cs

/-- The lines among the pieces between line feeds: all but the last piece were
ended by one. -/
def linesOfPieces : List (List Char) → List (List Char)
  | [] => []
  | [rest] => if rest.isEmpty then [] else [rest]
  | p :: ps => dropReturn p :: linesOfPieces ps

/-- The lines of a text, without their endings. -/
def lines (cs : List Char) : List (List Char) :=
  linesOfPieces (pieces (· == '\n') cs)

/-- A piece with others behind it was ended by a line feed. -/
theorem linesOfPieces_cons (p : List Char) {ps : List (List Char)} (h : ps ≠ []) :
    linesOfPieces (p :: ps) = dropReturn p :: linesOfPieces ps := by
  rw [linesOfPieces]
  exact h

/-- Pieces with others behind them were all ended by a line feed. -/
theorem linesOfPieces_append (before : List (List Char)) {after : List (List Char)}
    (h : after ≠ []) :
    linesOfPieces (before ++ after) = before.map dropReturn ++ linesOfPieces after := by
  induction before with
  | nil => rfl
  | cons p before ih =>
    rw [List.cons_append, linesOfPieces, ih, List.map_cons, List.cons_append]
    exact fun hnil => h (List.append_eq_nil_iff.1 hnil).2

/-- **The lines on either side of a line feed.** Before it every line is ended. -/
theorem lines_append_newline (before after : List Char) :
    lines (before ++ '\n' :: after)
      = (pieces (· == '\n') before).map dropReturn ++ lines after := by
  rw [lines, pieces_append_cons rfl,
    linesOfPieces_append _ (pieces_ne_nil (· == '\n') after), lines]

/-- What stands before a line feed is a line. -/
theorem lines_append_cons {l : List Char} (hl : '\n' ∉ l) (hr : l.getLast? ≠ some '\r')
    (cs : List Char) : lines (l ++ '\n' :: cs) = l :: lines cs := by
  have hpiece : pieces (· == '\n') l = [l] :=
    pieces_eq_singleton fun c hc => beq_eq_false_iff_ne.2 fun heq => hl (heq ▸ hc)
  rw [lines_append_newline, hpiece, List.map_singleton, dropReturn, if_neg hr,
    List.singleton_append]

/-- **Texts that are each ended by a line feed are lines.** -/
theorem lines_flatMap {ls : List (List Char)}
    (h : ∀ l ∈ ls, '\n' ∉ l ∧ l.getLast? ≠ some '\r') :
    lines (ls.flatMap (· ++ ['\n'])) = ls := by
  induction ls with
  | nil => rfl
  | cons l ls ih =>
    obtain ⟨hl, hr⟩ := h l List.mem_cons_self
    rw [List.flatMap_cons, List.append_assoc, List.singleton_append, lines_append_cons hl hr,
      ih fun m hm => h m (List.mem_cons_of_mem _ hm)]

theorem dropReturn_subset (cs : List Char) : dropReturn cs ⊆ cs := by
  unfold dropReturn
  split
  · exact List.dropLast_subset cs
  · exact List.Subset.refl cs

/-- A line is a piece, or one without its carriage return. -/
theorem exists_piece_of_mem_linesOfPieces {ps : List (List Char)} {l : List Char}
    (h : l ∈ linesOfPieces ps) : ∃ p ∈ ps, l ⊆ p := by
  induction ps with
  | nil => exact absurd h List.not_mem_nil
  | cons p ps ih =>
    cases ps with
    | nil =>
      rw [linesOfPieces] at h
      split at h
      · exact absurd h List.not_mem_nil
      · exact ⟨p, List.mem_cons_self, List.mem_singleton.1 h ▸ List.Subset.refl p⟩
    | cons q qs =>
      rcases List.mem_cons.1 h with rfl | h
      · exact ⟨p, List.mem_cons_self, dropReturn_subset p⟩
      · obtain ⟨r, hr, hsub⟩ := ih h
        exact ⟨r, List.mem_cons_of_mem _ hr, hsub⟩

/-- No line holds a line feed. -/
theorem not_newline_of_mem_lines {cs l : List Char} (h : l ∈ lines cs) : '\n' ∉ l := by
  obtain ⟨p, hp, hsub⟩ := exists_piece_of_mem_linesOfPieces h
  intro hmem
  exact absurd (not_cut_of_mem_pieces hp '\n' (hsub hmem)) (by decide)

end FlatRecord.Text
