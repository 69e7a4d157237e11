import FlatRecord.Proofs.ClassText
import Mathlib.Data.List.Induction

/-!
# Code and comments

What a compiler sees of a header is its text without comments. `Text.code` takes them
out: from a `/*` to the next `*/`, as the language has it, whatever stands between.
`Text.codeLines` are the lines that are left, short of the blank ones.

Where lines leave no comment open (`Closed`), what comes after them is read on its own.
So it is with lines of code, and so it is with every comment block: whatever its text
does, its last line ends a comment or stands outside of one. Lines that are woven from
both have the code of the first, and that of the blocks in between (`Woven`). They are
the same code without the blocks exactly when no block has any (`Woven.codeOf_eq_iff`),
and a block has none when no comment in it ends it (`codeOf_docBlock`).
-/

namespace FlatRecord

/-! ## Taking comments out -/

namespace Text

mutual

/-- A text without its comments. A comment that does not end runs to the end of the
text. -/
def code : List Char → List Char
  | [] => []
  | '/' :: '*' :: rest => afterComment rest
  | c :: rest => c :: code rest

/-- A text that begins within a comment, without this comment and others. -/
def afterComment : List Char → List Char
  | [] => []
  | '*' :: '/' :: rest => code rest
  | _ :: rest => afterComment rest

end

/-- The lines of a text without its comments and without blank lines. -/
def codeLines (cs : List Char) : List (List Char) :=
  (pieces (· == '\n') (code cs)).filter (!·.all isBlank)

theorem code_cons {c : Char} {cs : List Char} (h : c = '/' → cs.head? ≠ some '*') :
    code (c :: cs) = c :: code cs :=
  code.eq_3 c cs fun _ hc hcs => h hc (hcs ▸ rfl)

theorem afterComment_cons {c : Char} {cs : List Char} (h : c = '*' → cs.head? ≠ some '/') :
    afterComment (c :: cs) = afterComment cs :=
  afterComment.eq_3 c cs fun _ hc hcs => h hc (hcs ▸ rfl)

/-- A text without a slash is code. -/
theorem code_append {cs : List Char} (h : ∀ c ∈ cs, c ≠ '/') (rest : List Char) :
    code (cs ++ rest) = cs ++ code rest := by
  induction cs with
  | nil => rfl
  | cons c cs ih =>
    obtain ⟨hc, hcs⟩ := List.forall_mem_cons.1 h
    rw [List.cons_append, code_cons fun heq => absurd heq hc, ih hcs, List.cons_append]

/-- Whether a text ends a comment that it stands in. -/
def EndsComment (cs : List Char) : Prop := ['*', '/'] <:+: cs

instance (cs : List Char) : Decidable (EndsComment cs) :=
  inferInstanceAs (Decidable (['*', '/'] <:+: cs))

theorem endsComment_cons {c : Char} {cs : List Char} :
    EndsComment (c :: cs) ↔ ['*', '/'] <+: c :: cs ∨ EndsComment cs :=
  List.infix_cons_iff

theorem EndsComment.mem {cs : List Char} (h : EndsComment cs) : '*' ∈ cs ∧ '/' ∈ cs :=
  ⟨h.subset List.mem_cons_self, h.subset (List.mem_cons_of_mem _ List.mem_cons_self)⟩

/-- **A text that stays in a comment**: what follows it in one is in it still. -/
def StaysInside (cs : List Char) : Prop :=
  ∀ rest, afterComment (cs ++ rest) = afterComment rest

theorem StaysInside.append {cs ds : List Char} (hcs : StaysInside cs) (hds : StaysInside ds) :
    StaysInside (cs ++ ds) := by
  intro rest
  rw [List.append_assoc, hcs, hds]

/-- A text stays in a comment when it does not end it, not even with what follows. -/
theorem StaysInside.of_not_endsComment {cs : List Char} (h : ¬ EndsComment cs)
    (hlast : cs.getLast? ≠ some '*') : StaysInside cs := by
  intro rest
  induction cs with
  | nil => rfl
  | cons c cs ih =>
    rw [endsComment_cons, not_or] at h
    have hmore : c = '*' → (cs ++ rest).head? ≠ some '/' := by
      rintro rfl heq
      cases cs with
      | nil => exact hlast rfl
      | cons d ds =>
        obtain rfl := Option.some.inj heq
        exact h.1 ⟨ds, rfl⟩
    rw [List.cons_append, afterComment_cons hmore]
    refine ih h.2 fun heq => hlast ?_
    rw [List.getLast?_cons, heq]
    rfl

theorem StaysInside.of_forall_ne {cs : List Char} (h : ∀ c ∈ cs, c ≠ '*') : StaysInside cs :=
  .of_not_endsComment (fun hend => h _ hend.mem.1 rfl)
    fun hlast => h _ (List.mem_of_getLast? hlast) rfl

theorem StaysInside.flatMap {α : Type} {xs : List α} {f : α → List Char}
    (h : ∀ x ∈ xs, StaysInside (f x)) : StaysInside (xs.flatMap f) := by
  induction xs with
  | nil => exact fun _ => rfl
  | cons x xs ih =>
    obtain ⟨hx, hxs⟩ := List.forall_mem_cons.1 h
    rw [List.flatMap_cons]
    exact hx.append (ih hxs)

/-- Two texts do not end a comment between them when the one does not begin the end
that the other would complete. -/
theorem not_endsComment_append {cs ds : List Char} (hcs : ¬ EndsComment cs)
    (hds : ¬ EndsComment ds) (h : cs.getLast? ≠ some '*' ∨ ds.head? ≠ some '/') :
    ¬ EndsComment (cs ++ ds) := by
  induction cs with
  | nil => exact hds
  | cons c cs ih =>
    rw [endsComment_cons, not_or] at hcs
    rw [List.cons_append, endsComment_cons, not_or]
    cases cs with
    | nil =>
      refine ⟨fun hstart => ?_, hds⟩
      rw [List.nil_append, List.cons_prefix_cons] at hstart
      obtain ⟨rfl, rest, rfl⟩ := hstart
      exact h.elim (· rfl) (· rfl)
    | cons d cs =>
      have hstart : ∀ es, ['*', '/'] <+: c :: d :: es ↔ '*' = c ∧ '/' = d := fun es => by
        rw [List.cons_prefix_cons, List.cons_prefix_cons, and_iff_left List.nil_prefix]
      refine ⟨(hstart _).not.2 ((hstart _).not.1 hcs.1), ih hcs.2 ?_⟩
      rwa [List.getLast?_cons_cons] at h

/-- A comment leaves what stands around it. -/
theorem code_comment {before inside : List Char} (hbefore : ∀ c ∈ before, c ≠ '/')
    (h : StaysInside inside) (rest : List Char) :
    code (before ++ '/' :: '*' :: (inside ++ '*' :: '/' :: rest)) = before ++ code rest := by
  rw [code_append hbefore]
  exact congrArg (before ++ ·) (h _)

/-- A line of code that a line feed ends. -/
theorem codeLines_of_code {cs l rest : List Char} (hcode : code cs = l ++ '\n' :: code rest) :
    codeLines cs = (pieces (· == '\n') l).filter (!·.all isBlank) ++ codeLines rest := by
  rw [codeLines, hcode, pieces_append_cons rfl, List.filter_append, codeLines]

/-- **A line that ends in the end of a comment leaves none open**, whether it stands in
one or not. -/
theorem code_append_close (cs rest : List Char) :
    code (cs ++ ' ' :: '*' :: '/' :: '\n' :: rest)
        = code (cs ++ [' ', '*', '/']) ++ '\n' :: code rest
      ∧ afterComment (cs ++ ' ' :: '*' :: '/' :: '\n' :: rest)
        = afterComment (cs ++ [' ', '*', '/']) ++ '\n' :: code rest := by
  induction cs using List.twoStepInduction with
  | nil => exact ⟨rfl, rfl⟩
  | singleton c =>
    have hblank : ∀ {d : Char} {ds : List Char}, d ≠ ' ' → (' ' :: ds).head? ≠ some d := by
      rintro d ds hd heq
      exact hd (Option.some.inj heq).symm
    constructor
    · have hslash : c = '/' → ∀ ds : List Char, (' ' :: ds).head? ≠ some '*' := fun _ _ =>
        hblank (by decide)
      rw [List.singleton_append, List.singleton_append, code_cons fun hc => hslash hc _,
        code_cons fun hc => hslash hc _]
      rfl
    · have hstar : c = '*' → ∀ ds : List Char, (' ' :: ds).head? ≠ some '/' := fun _ _ =>
        hblank (by decide)
      rw [List.singleton_append, List.singleton_append, afterComment_cons fun hc => hstar hc _,
        afterComment_cons fun hc => hstar hc _]
      rfl
  | cons_cons c d cs ih ihd =>
    simp only [List.cons_append] at ihd ⊢
    constructor
    · by_cases hopen : c = '/' ∧ d = '*'
      · obtain ⟨rfl, rfl⟩ := hopen
        exact ih.2
      · have hmore : ∀ ds : List Char, c = '/' → (d :: ds).head? ≠ some '*' := fun _ hc hd =>
          hopen ⟨hc, Option.some.inj hd⟩
        rw [code_cons (hmore _), code_cons (hmore _), (ihd d).1, List.cons_append]
    · by_cases hend : c = '*' ∧ d = '/'
      · obtain ⟨rfl, rfl⟩ := hend
        exact ih.1
      · have hmore : ∀ ds : List Char, c = '*' → (d :: ds).head? ≠ some '/' := fun _ hc hd =>
          hend ⟨hc, Option.some.inj hd⟩
        rw [afterComment_cons (hmore _), afterComment_cons (hmore _), (ihd d).2]

end Text

/-! ## The code of lines -/

/-- Lines as they stand in a text, each ended by a line feed. -/
def textOf (lines : List String) : List Char := lines.flatMap (·.toList ++ ['\n'])

theorem toList_join_lines (lines : List String) :
    (String.join (lines.map (· ++ "\n"))).toList = textOf lines := by
  rw [String.toList_join, List.flatMap_map, textOf]
  simp [String.toList_append]

/-- The lines of these that are not blank. -/
def nonblank (lines : List String) : List (List Char) :=
  (lines.map String.toList).filter (!·.all Text.isBlank)

/-- What is left of lines without comments. -/
def codeOf (lines : List String) : List (List Char) := Text.codeLines (textOf lines)

/-- **Lines that leave no comment open**: what comes after them is read on its own. -/
def Closed (lines : List String) : Prop :=
  ∀ rest, Text.codeLines (textOf lines ++ rest) = codeOf lines ++ Text.codeLines rest

theorem textOf_cons (l : String) (lines : List String) :
    textOf (l :: lines) = l.toList ++ '\n' :: textOf lines := by
  rw [textOf, List.flatMap_cons, List.append_assoc, List.singleton_append]
  rfl

theorem textOf_append (before after : List String) :
    textOf (before ++ after) = textOf before ++ textOf after :=
  List.flatMap_append

theorem nonblank_append (before after : List String) :
    nonblank (before ++ after) = nonblank before ++ nonblank after := by
  rw [nonblank, List.map_append, List.filter_append, nonblank, nonblank]

section Closed

variable {lines lines' : List String} {shown : List (List Char)}

/-- Lines that come to the same whatever comes after them come to that on their own. -/
theorem closed_and_codeOf
    (h : ∀ rest, Text.codeLines (textOf lines ++ rest) = shown ++ Text.codeLines rest) :
    Closed lines ∧ codeOf lines = shown := by
  have hcode : codeOf lines = shown := by
    have hend := h []
    rwa [List.append_nil, show Text.codeLines [] = [] from rfl, List.append_nil] at hend
  refine ⟨fun rest => ?_, hcode⟩
  rw [hcode, h]

theorem closed_nil : Closed [] := fun _ => rfl

theorem Closed.codeOf_append (h : Closed lines) :
    codeOf (lines ++ lines') = codeOf lines ++ codeOf lines' := by
  rw [codeOf, textOf_append, h]
  rfl

theorem Closed.append (h : Closed lines) (h' : Closed lines') : Closed (lines ++ lines') := by
  intro rest
  rw [textOf_append, List.append_assoc, h, h', h.codeOf_append, List.append_assoc]

end Closed

/-- **A line of code**: nothing in it begins a comment or ends the line. -/
def IsCode (l : String) : Prop := ∀ c ∈ l.toList, c ≠ '/' ∧ c ≠ '\n'

instance (l : String) : Decidable (IsCode l) :=
  decidable_of_iff ((l.toList.all fun c => c != '/' && c != '\n') = true) (by simp [IsCode])

namespace IsCode

variable {l : String}

theorem of_plain (h : ∀ c ∈ l.toList, Text.isPlain c = true) : IsCode l :=
  fun c hc => ⟨(Text.isPlain_iff.1 (h c hc)).1.1, (Text.isPlain_iff.1 (h c hc)).2⟩

theorem append {a b : String} (ha : IsCode a) (hb : IsCode b) : IsCode (a ++ b) := by
  rw [IsCode, String.toList_append, List.forall_mem_append]
  exact ⟨ha, hb⟩

/-- What is left of a line is its code when it comes down to a line of code. -/
theorem closed_of_code {cs : String} (h : IsCode l)
    (hcode : ∀ rest, Text.code (cs.toList ++ '\n' :: rest) = l.toList ++ '\n' :: Text.code rest) :
    Closed [cs] ∧ codeOf [cs] = nonblank [l] := by
  have hpiece : Text.pieces (· == '\n') l.toList = [l.toList] :=
    Text.pieces_eq_singleton fun c hc => beq_eq_false_iff_ne.2 (h c hc).2
  refine closed_and_codeOf fun rest => ?_
  rw [textOf, List.flatMap_singleton, List.append_assoc, List.singleton_append,
    Text.codeLines_of_code (hcode rest), hpiece]
  rfl

/-- A line of code is its own code. -/
theorem closed (h : IsCode l) : Closed [l] ∧ codeOf [l] = nonblank [l] :=
  h.closed_of_code fun rest => by
    rw [Text.code_append fun c hc => (h c hc).1, Text.code_cons fun hc => absurd hc (by decide)]

/-- A comment behind code on a line is no code. -/
theorem closed_comment {inside : String} (h : IsCode l) (hinside : Text.StaysInside inside.toList) :
    Closed [l ++ "/*" ++ inside ++ "*/"] ∧ codeOf [l ++ "/*" ++ inside ++ "*/"] = nonblank [l] :=
  h.closed_of_code fun rest => by
    have htext : (l ++ "/*" ++ inside ++ "*/").toList ++ '\n' :: rest
        = l.toList ++ '/' :: '*' :: (inside.toList ++ '*' :: '/' :: '\n' :: rest) := by
      simp [String.toList_append]
    rw [htext, Text.code_comment (fun c hc => (h c hc).1) hinside,
      Text.code_cons fun hc => absurd hc (by decide)]

end IsCode

/-! ## Lines and comment blocks -/

/-- **Lines woven from code and comment blocks.** They leave no comment open, and their
code is the one with that of the other in between. -/
structure Woven (lines : List String) (blocks : List (List String)) (code : List String) :
    Prop where
  /-- No comment is left open. -/
  closed : Closed lines
  /-- The code is in the lines, in its order. -/
  sublist : (nonblank code).Sublist (codeOf lines)
  /-- What is more in the lines is in the blocks. -/
  length : (codeOf lines).length
    = (nonblank code).length + (blocks.map fun b => (codeOf b).length).sum

namespace Woven

variable {lines lines' code code' : List String} {blocks blocks' : List (List String)}

theorem nil : Woven [] [] [] := ⟨closed_nil, .refl _, rfl⟩

theorem append (h : Woven lines blocks code) (h' : Woven lines' blocks' code') :
    Woven (lines ++ lines') (blocks ++ blocks') (code ++ code') := by
  refine ⟨h.closed.append h'.closed, ?_, ?_⟩
  · rw [nonblank_append, h.closed.codeOf_append]
    exact h.sublist.append h'.sublist
  · rw [nonblank_append, h.closed.codeOf_append, List.length_append, List.length_append,
      List.map_append, List.sum_append, h.length, h'.length]
    omega

theorem flatMap {α : Type} {xs : List α} {f code : α → List String}
    {blocks : α → List (List String)} (h : ∀ x ∈ xs, Woven (f x) (blocks x) (code x)) :
    Woven (xs.flatMap f) (xs.flatMap blocks) (xs.flatMap code) := by
  induction xs with
  | nil => exact .nil
  | cons x xs ih =>
    obtain ⟨hx, hxs⟩ := List.forall_mem_cons.1 h
    rw [List.flatMap_cons, List.flatMap_cons, List.flatMap_cons]
    exact hx.append (ih hxs)

/-- A line that comes down to code is woven from it. -/
theorem of_closed {l s : String} (h : Closed [l] ∧ codeOf [l] = nonblank [s]) :
    Woven [l] [] [s] := by
  refine ⟨h.1, ?_, ?_⟩
  · rw [h.2]
  · rw [h.2]
    rfl

theorem map {α : Type} {xs : List α} {f g : α → String}
    (h : ∀ x ∈ xs, Closed [f x] ∧ codeOf [f x] = nonblank [g x]) :
    Woven (xs.map f) [] (xs.map g) := by
  induction xs with
  | nil => exact .nil
  | cons x xs ih =>
    obtain ⟨hx, hxs⟩ := List.forall_mem_cons.1 h
    exact (of_closed hx).append (ih hxs)

/-- Lines of code are woven from themselves. -/
theorem of_forall_isCode (h : ∀ l ∈ lines, IsCode l) : Woven lines [] lines := by
  have hmap : Woven (lines.map id) [] (lines.map id) := map fun l hl => (h l hl).closed
  rwa [List.map_id] at hmap

/-- A block is woven from itself. -/
theorem of_block {block : List String} (h : Closed block) : Woven block [block] [] := by
  refine ⟨h, List.nil_sublist _, ?_⟩
  rw [List.map_singleton, List.sum_singleton, nonblank, List.map_nil, List.filter_nil,
    List.length_nil, Nat.zero_add]

/-- **What is woven is the code alone exactly when no block has any.** -/
theorem codeOf_eq_iff (h : Woven lines blocks code) :
    codeOf lines = nonblank code ↔ ∀ b ∈ blocks, codeOf b = [] := by
  have hsum : (blocks.map fun b => (codeOf b).length).sum = 0 ↔ ∀ b ∈ blocks, codeOf b = [] := by
    rw [List.sum_eq_zero_iff_forall_eq_nat, List.forall_mem_map]
    exact forall₂_congr fun b _ => List.length_eq_zero_iff
  rw [← hsum]
  constructor
  · intro heq
    have hlength := h.length
    rw [heq] at hlength
    omega
  · intro hzero
    refine (h.sublist.eq_of_length ?_).symm
    rw [h.length, hzero, Nat.add_zero]

end Woven

/-! ## Comment blocks -/

/-- Comments that stay in a comment block: none of them ends it. -/
def Contained (docs : List String) : Prop := ∀ d ∈ docs, ¬ Text.EndsComment d.toList

instance (docs : List String) : Decidable (Contained docs) :=
  inferInstanceAs (Decidable (∀ d ∈ docs, ¬ Text.EndsComment d.toList))

/-- Nothing but the blanks at its end is missing in a line of a comment block. -/
theorem docLine_isPrefix (indent text : String) :
    (docLine indent text).toList <+: (indent ++ " * " ++ text).toList := by
  rw [docLine, String.toList_ofList, Text.trimEnd, ← List.reverse_suffix, List.reverse_reverse]
  exact List.dropWhile_suffix _

/-- A line of a comment block does not end the comment unless its text does. -/
theorem staysInside_docLine {indent text : String} (hindent : ∀ c ∈ indent.toList, c ≠ '*')
    (h : ¬ Text.EndsComment text.toList) :
    Text.StaysInside ((docLine indent text).toList ++ ['\n']) := by
  have hwhole : ¬ Text.EndsComment (indent ++ " * " ++ text).toList := by
    rw [String.toList_append, String.toList_append]
    refine Text.not_endsComment_append
      (Text.not_endsComment_append ?_ (by decide) (.inr (by decide))) h (.inl ?_)
    · exact fun hend => hindent '*' hend.mem.1 rfl
    · simp
  refine .of_not_endsComment (Text.not_endsComment_append (fun hend => hwhole ?_) (by decide)
    (.inr (by decide))) ?_
  · exact hend.trans (docLine_isPrefix indent text).isInfix
  · simp

section docBlock

variable {indent : String} {heading docs : List String}

/-- What a comment block comes down to: its indentation, and what follows the end of the
comment in its text. -/
def blockCode (indent : String) (docs : List String) : List Char :=
  indent.toList
    ++ Text.afterComment (textOf (docs.map (docLine indent)) ++ indent.toList ++ [' ', '*', '/'])

theorem textOf_docBlock (h : docs ≠ []) (rest : List Char) :
    textOf (docBlock indent heading docs) ++ rest
      = indent.toList ++ '/' :: '*' :: (("*\n".toList ++ textOf (heading.map (docLine indent)))
        ++ ((textOf (docs.map (docLine indent)) ++ indent.toList)
          ++ ' ' :: '*' :: '/' :: '\n' :: rest)) := by
  rw [docBlock, if_neg (by simpa using h)]
  simp [textOf, String.toList_append]

/-- The lines of a comment block stay in the comment as long as their texts do. -/
theorem staysInside_docLines (hindent : ∀ c ∈ indent.toList, c = ' ') (h : Contained docs) :
    Text.StaysInside (textOf (docs.map (docLine indent))) := by
  rw [textOf, List.flatMap_map]
  exact .flatMap fun d hd => staysInside_docLine (fun c hc => hindent c hc ▸ by decide) (h d hd)

/-- A comment block comes down to its code, whatever its text and whatever comes after
it. -/
theorem closed_and_codeOf_docBlock (hindent : ∀ c ∈ indent.toList, c = ' ') (hdocs : docs ≠ [])
    (hheading : Contained heading) :
    Closed (docBlock indent heading docs)
      ∧ codeOf (docBlock indent heading docs)
        = (Text.pieces (· == '\n') (blockCode indent docs)).filter (!·.all Text.isBlank) := by
  have hslash : ∀ c ∈ indent.toList, c ≠ '/' := fun c hc => hindent c hc ▸ by decide
  have hinside : Text.StaysInside ("*\n".toList ++ textOf (heading.map (docLine indent))) :=
    .append (.of_not_endsComment (by decide) (by decide)) (staysInside_docLines hindent hheading)
  refine closed_and_codeOf fun rest => Text.codeLines_of_code ?_
  rw [textOf_docBlock hdocs, Text.code_append hslash, Text.code, hinside,
    (Text.code_append_close _ rest).2, blockCode, List.append_assoc indent.toList]

theorem contained_nil : Contained [] := fun _ h => absurd h List.not_mem_nil

/-- **A comment block leaves no comment open**, whatever its text. -/
theorem closed_docBlock (hindent : ∀ c ∈ indent.toList, c = ' ') (hheading : Contained heading) :
    Closed (docBlock indent heading docs) := by
  by_cases hdocs : docs = []
  · rw [hdocs]
    exact closed_nil
  · exact (closed_and_codeOf_docBlock hindent hdocs hheading).1

/-- A heading that stays in the comment has no part in the code of a comment block. -/
theorem codeOf_docBlock_heading (hindent : ∀ c ∈ indent.toList, c = ' ')
    (hheading : Contained heading) :
    codeOf (docBlock indent heading docs) = codeOf (docBlock indent [] docs) := by
  by_cases hdocs : docs = []
  · rw [hdocs]
    rfl
  · rw [(closed_and_codeOf_docBlock hindent hdocs hheading).2,
      (closed_and_codeOf_docBlock hindent hdocs contained_nil).2]

/-- **A comment block has no code** when no comment in it ends it. -/
theorem codeOf_docBlock (hindent : ∀ c ∈ indent.toList, c = ' ') (h : Contained docs) :
    codeOf (docBlock indent [] docs) = [] := by
  by_cases hdocs : docs = []
  · rw [hdocs]
    rfl
  have hinside : Text.StaysInside
      (textOf (docs.map (docLine indent)) ++ (indent.toList ++ [' '])) := by
    refine (staysInside_docLines hindent h).append (.of_forall_ne ?_)
    rw [List.forall_mem_append]
    exact ⟨fun c hc => hindent c hc ▸ by decide, Text.forall_mem_of_all rfl⟩
  -- nothing follows the end of the comment
  have hend : Text.afterComment
      (textOf (docs.map (docLine indent)) ++ indent.toList ++ [' ', '*', '/']) = [] := by
    have hmarks := hinside ['*', '/']
    simp only [List.append_assoc, List.singleton_append] at hmarks ⊢
    exact hmarks
  have hpiece : Text.pieces (· == '\n') indent.toList = [indent.toList] :=
    Text.pieces_eq_singleton fun c hc => hindent c hc ▸ by decide
  have hblank : indent.toList.all Text.isBlank = true := List.all_eq_true.2 fun c hc =>
    hindent c hc ▸ by decide
  rw [(closed_and_codeOf_docBlock hindent hdocs contained_nil).2, blockCode, hend,
    List.append_nil, hpiece, List.filter_cons_of_neg (by simpa using hblank), List.filter_nil]

end docBlock

end FlatRecord
