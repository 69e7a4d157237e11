import FlatRecord.Text.CodeRange
import FlatRecord.Text.Pieces

/-!
# Blank characters

A character is blank when it has the Unicode property White_Space, and that
one class decides everything the schema language says about white space: what
indents a line, what is trimmed off its ends, and what separates its words.
-/

namespace FlatRecord.Text

/-- The code points with the property White_Space. -/
def blankTable : List CodeRange :=
  [⟨0x9, 0xD⟩, ⟨0x20, 0x20⟩, ⟨0x85, 0x85⟩, ⟨0xA0, 0xA0⟩, ⟨0x1680, 0x1680⟩,
   ⟨0x2000, 0x200A⟩, ⟨0x2028, 0x2029⟩, ⟨0x202F, 0x202F⟩, ⟨0x205F, 0x205F⟩,
   ⟨0x3000, 0x3000⟩]

/-- Whether a character is white space. -/
def isBlank (c : Char) : Bool := inRanges blankTable c

/-- The text without the blanks at its start. -/
def trimStart (cs : List Char) : List Char := cs.dropWhile isBlank

/-- The text without the blanks at its end. -/
def trimEnd (cs : List Char) : List Char := (cs.reverse.dropWhile isBlank).reverse

/-- The text without the blanks at either end. -/
def trim (cs : List Char) : List Char := trimEnd (trimStart cs)

/-- The words of a text: its longest runs of characters that are not blank,
in order. -/
def words (cs : List Char) : List (List Char) :=
  (pieces isBlank cs).filter (fun w => !w.isEmpty)

theorem trimEnd_append_of_blank {cs bs : List Char} (h : ∀ c ∈ bs, isBlank c = true) :
    trimEnd (cs ++ bs) = trimEnd cs := by
  have : (bs.reverse ++ cs.reverse).dropWhile isBlank = cs.reverse.dropWhile isBlank :=
    List.dropWhile_append_of_pos (fun c hc => h c (List.mem_reverse.1 hc))
  simp [trimEnd, this]

/-- A character that is not blank stays, with all before it. -/
theorem trimEnd_append_cons {c : Char} (h : isBlank c = false) (before after : List Char) :
    trimEnd (before ++ c :: after) = before ++ c :: trimEnd after := by
  have hc : ¬ isBlank c = true := by
    rw [h]
    exact Bool.false_ne_true
  have hreverse : (before ++ c :: after).reverse = after.reverse ++ c :: before.reverse := by
    rw [List.reverse_append, List.reverse_cons, List.append_assoc, List.singleton_append]
  unfold trimEnd
  rw [hreverse, List.dropWhile_append, List.dropWhile_cons_of_neg hc]
  split
  · rename_i hempty
    rw [List.isEmpty_iff.1 hempty, List.reverse_cons, List.reverse_reverse]
    rfl
  · rw [List.reverse_append, List.reverse_cons, List.reverse_reverse, List.append_assoc,
      List.singleton_append]

theorem trimStart_append_of_blank {cs bs : List Char} (h : ∀ c ∈ bs, isBlank c = true) :
    trimStart (bs ++ cs) = trimStart cs :=
  List.dropWhile_append_of_pos h

/-- Blanks at the end of a text are trimmed off it. -/
theorem trim_append_of_blank {cs bs : List Char} (h : ∀ c ∈ bs, isBlank c = true) :
    trim (cs ++ bs) = trim cs := by
  rw [trim, trim, trimStart, List.dropWhile_append]
  split
  · rename_i hempty
    -- all of the text is blank
    have hbs : (bs ++ []).dropWhile isBlank = [] := List.dropWhile_append_of_pos h
    rw [List.append_nil] at hbs
    rw [hbs, trimStart, List.isEmpty_iff.1 hempty]
  · exact trimEnd_append_of_blank h

/-- What is trimmed stands in the text. -/
theorem infix_trim (cs : List Char) : trim cs <:+: cs := by
  have hend : trim cs <+: trimStart cs := by
    rw [trim, trimEnd, ← List.reverse_suffix, List.reverse_reverse]
    exact List.dropWhile_suffix isBlank
  exact hend.isInfix.trans (List.dropWhile_suffix isBlank).isInfix

/-- The words on either side of a blank are the words of either side. -/
theorem words_append_cons {b : Char} (hb : isBlank b = true) (before after : List Char) :
    words (before ++ b :: after) = words before ++ words after := by
  rw [words, pieces_append_cons hb, List.filter_append]
  rfl

/-- Blanks in front of a text add no word. -/
theorem words_append_of_blank {s : List Char} (hs : ∀ c ∈ s, isBlank c = true)
    (b : List Char) : words (s ++ b) = words b := by
  induction s with
  | nil => rfl
  | cons c s ih =>
    have hrest := ih fun d hd => hs d (List.mem_cons_of_mem _ hd)
    have hcut := words_append_cons (hs c List.mem_cons_self) [] (s ++ b)
    rwa [hrest] at hcut

/-- The words on either side of a gap are the words of either side. -/
theorem words_append_gap {s : List Char} (hs : ∀ c ∈ s, isBlank c = true) (hne : s ≠ [])
    (a b : List Char) : words (a ++ s ++ b) = words a ++ words b := by
  obtain ⟨c, s, rfl⟩ := List.exists_cons_of_ne_nil hne
  rw [List.append_assoc, List.cons_append, words_append_cons (hs c List.mem_cons_self),
    words_append_of_blank fun d hd => hs d (List.mem_cons_of_mem _ hd)]

/-- A text without blanks at its ends is not trimmed. -/
theorem trim_eq_self {cs : List Char} (hfirst : ∀ c, cs.head? = some c → isBlank c = false)
    (hlast : ∀ c, cs.getLast? = some c → isBlank c = false) : trim cs = cs := by
  have hkeep : ∀ ds : List Char, (∀ c, ds.head? = some c → isBlank c = false) →
      ds.dropWhile isBlank = ds := by
    intro ds hd
    cases ds with
    | nil => rfl
    | cons d ds => rw [List.dropWhile_cons_of_neg (by rw [hd d rfl]; exact Bool.false_ne_true)]
  rw [trim, trimStart, hkeep cs hfirst, trimEnd, hkeep, List.reverse_reverse]
  intro c hc
  exact hlast c (List.head?_reverse ▸ hc)

/-- A text without blanks is its own only word. -/
theorem words_eq_singleton {w : List Char} (hne : w ≠ []) (h : ∀ c ∈ w, isBlank c = false) :
    words w = [w] := by
  rw [words, pieces_eq_singleton h]
  simp [hne]

/-- A word stands in the text. -/
theorem infix_of_mem_words {cs w : List Char} (hw : w ∈ words cs) : w <:+: cs :=
  infix_of_mem_pieces (List.mem_filter.1 hw).1

end FlatRecord.Text
