import FlatRecord.Proofs.Documentation

/-!
# Including several headers

Where several headers are included in one translation unit, a header that is guarded
by a macro is skipped when the macro is defined already. That is what the macro is for
when a header comes twice. But two records of one schema have different names, and
both their classes should come through.

A `Preprocessor` reads lines of code as far as this depends on them: the lines that
define a macro, and the conditions that a macro is not defined. A guarded header with
a new macro comes through and defines it, and one with a macro that is defined comes
to nothing (`Preprocessor.run_guarded_of_not_mem`, `Preprocessor.run_guarded_of_mem`).
So all classes come through exactly when the macros are different, and that is when the
names of the records are different in upper case (`guarded_classes_pass_iff`). The check
of names compares them as they are written.
-/

namespace FlatRecord

/-! ## Directives -/

/-- A line of code, as the preprocessor takes it. -/
inductive Directive where
  /-- The lines up to the end of the condition count where the macro is not defined. -/
  | unlessDefined (name : List Char)
  /-- The macro is defined from here on. -/
  | define (name : List Char)
  /-- The condition ends. -/
  | endCondition
  /-- Any other line. -/
  | other
deriving DecidableEq, Repr

namespace Directive

/-- The directive in a line that begins with no blank. -/
def ofTrimmed (line : List Char) : Directive :=
  if "#ifndef ".toList <+: line then .unlessDefined (line.drop 8)
  else if "#define ".toList <+: line then .define (line.drop 8)
  else if "#endif".toList <+: line then .endCondition
  else .other

/-- The directive in a line. -/
def ofLine (line : List Char) : Directive := ofTrimmed (Text.trimStart line)

/-- A line without a number sign is no directive. -/
theorem ofLine_eq_other {line : List Char} (h : '#' ∉ line) : ofLine line = .other := by
  have hnot : ∀ {cs : List Char}, '#' ∈ cs → ¬ cs <+: Text.trimStart line := fun hmem hstart =>
    h ((List.dropWhile_sublist _).subset (hstart.subset hmem))
  rw [ofLine, ofTrimmed, if_neg (hnot (by decide)), if_neg (hnot (by decide)),
    if_neg (hnot (by decide))]

theorem ofLine_ifndef (name : String) :
    ofLine ("#ifndef " ++ name).toList = .unlessDefined name.toList := by
  rw [String.toList_append]
  rfl

theorem ofLine_define (name : String) :
    ofLine ("#define " ++ name).toList = .define name.toList := by
  rw [String.toList_append]
  rfl

end Directive

/-! ## Reading lines -/

/-- What a preprocessor keeps in mind. -/
structure Preprocessor where
  /-- The macros that are defined. -/
  defined : List (List Char)
  /-- The number of conditions that are open from the first that does not hold; with
  none, lines count. -/
  skipped : Nat
deriving DecidableEq, Repr

namespace Preprocessor

/-- Reads a line, and hands on what comes through of it. -/
def step (p : Preprocessor) (line : List Char) : Preprocessor × List (List Char) :=
  match p.skipped, Directive.ofLine line with
  | 0, .unlessDefined name => (if name ∈ p.defined then { p with skipped := 1 } else p, [])
  | 0, .define name => ({ p with defined := name :: p.defined }, [])
  | 0, .endCondition => (p, [])
  | 0, .other => (p, [line])
  | depth + 1, .unlessDefined _ => ({ p with skipped := depth + 2 }, [])
  | depth + 1, .endCondition => ({ p with skipped := depth }, [])
  | _ + 1, .define _ => (p, [])
  | _ + 1, .other => (p, [])

/-- Reads the lines of a header, and hands on what comes through of it. -/
def run : Preprocessor → List (List Char) → Preprocessor × List (List Char)
  | p, [] => (p, [])
  | p, line :: lines =>
    let read := p.step line
    let rest := read.1.run lines
    (rest.1, read.2 ++ rest.2)

/-- Reads headers one after the other, and hands on what comes through of each. -/
def includeAll : Preprocessor → List (List (List Char)) → List (List (List Char))
  | _, [] => []
  | p, header :: headers =>
    let read := p.run header
    read.2 :: read.1.includeAll headers

variable {p : Preprocessor}

theorem run_cons {q r : Preprocessor} {line : List Char} {lines passed rest : List (List Char)}
    (hline : p.step line = (q, passed)) (hlines : q.run lines = (r, rest)) :
    p.run (line :: lines) = (r, passed ++ rest) := by
  rw [run, hline]
  dsimp only
  rw [hlines]

theorem run_singleton (p : Preprocessor) (line : List Char) : p.run [line] = p.step line := by
  rw [run, run]
  dsimp only
  rw [List.append_nil]

/-- A run over lines and one over those behind them are one run. -/
theorem run_append {q r : Preprocessor} {before after passed rest : List (List Char)}
    (hbefore : p.run before = (q, passed)) (hafter : q.run after = (r, rest)) :
    p.run (before ++ after) = (r, passed ++ rest) := by
  induction before generalizing p passed with
  | nil =>
    obtain ⟨rfl, rfl⟩ := Prod.mk.inj hbefore
    exact hafter
  | cons line before ih =>
    obtain ⟨hq, rfl⟩ := Prod.mk.inj hbefore
    have hline : p.step line = ((p.step line).1, (p.step line).2) := rfl
    have hlines : (p.step line).1.run (before ++ after)
        = (r, ((p.step line).1.run before).2 ++ rest) := ih (Prod.ext hq rfl)
    rw [List.cons_append, run_cons hline hlines, List.append_assoc]

/-- Lines that are no directives come through where lines count. -/
theorem run_of_counting {lines : List (List Char)} (hp : p.skipped = 0)
    (h : ∀ l ∈ lines, Directive.ofLine l = .other) : p.run lines = (p, lines) := by
  induction lines with
  | nil => rfl
  | cons line lines ih =>
    obtain ⟨hline, hlines⟩ := List.forall_mem_cons.1 h
    have hstep : p.step line = (p, [line]) := by rw [step, hp, hline]
    exact run_cons hstep (ih hlines)

/-- They do not where lines are skipped. -/
theorem run_of_skipping {lines : List (List Char)} {depth : Nat} (hp : p.skipped = depth + 1)
    (h : ∀ l ∈ lines, Directive.ofLine l = .other) : p.run lines = (p, []) := by
  induction lines with
  | nil => rfl
  | cons line lines ih =>
    obtain ⟨hline, hlines⟩ := List.forall_mem_cons.1 h
    have hstep : p.step line = (p, []) := by rw [step, hp, hline]
    exact run_cons hstep (ih hlines)

end Preprocessor

/-- A header that is guarded by a macro. -/
def guarded (name : String) (body : List (List Char)) : List (List Char) :=
  [("#ifndef " ++ name).toList, ("#define " ++ name).toList] ++ body ++ ["#endif".toList]

namespace Preprocessor

variable {p : Preprocessor} {name : String} {body : List (List Char)}

/-- **A guarded header with a new macro comes through**, and defines the macro. -/
theorem run_guarded_of_not_mem (hp : p.skipped = 0) (hname : name.toList ∉ p.defined)
    (hbody : ∀ l ∈ body, Directive.ofLine l = .other) :
    p.run (guarded name body) = ({ p with defined := name.toList :: p.defined }, body) := by
  obtain ⟨defined, skipped⟩ := p
  obtain rfl : skipped = 0 := hp
  have hifndef : step ⟨defined, 0⟩ ("#ifndef " ++ name).toList = (⟨defined, 0⟩, []) := by
    rw [step, Directive.ofLine_ifndef]
    dsimp only
    rw [if_neg hname]
  have hdefine : step ⟨defined, 0⟩ ("#define " ++ name).toList
      = (⟨name.toList :: defined, 0⟩, []) := by
    rw [step, Directive.ofLine_define]
  have hrest : run ⟨name.toList :: defined, 0⟩ (body ++ ["#endif".toList])
      = (⟨name.toList :: defined, 0⟩, body ++ []) :=
    run_append (run_of_counting rfl hbody) (run_singleton _ _)
  rw [List.append_nil] at hrest
  exact run_cons hifndef (run_cons hdefine hrest)

/-- **A guarded header with a macro that is defined comes to nothing.** -/
theorem run_guarded_of_mem (hp : p.skipped = 0) (hname : name.toList ∈ p.defined)
    (hbody : ∀ l ∈ body, Directive.ofLine l = .other) :
    p.run (guarded name body) = (p, []) := by
  obtain ⟨defined, skipped⟩ := p
  obtain rfl : skipped = 0 := hp
  have hifndef : step ⟨defined, 0⟩ ("#ifndef " ++ name).toList = (⟨defined, 1⟩, []) := by
    rw [step, Directive.ofLine_ifndef]
    dsimp only
    rw [if_pos hname]
  have hdefine : step ⟨defined, 1⟩ ("#define " ++ name).toList = (⟨defined, 1⟩, []) := by
    rw [step, Directive.ofLine_define]
  have hrest : run ⟨defined, 1⟩ (body ++ ["#endif".toList]) = (⟨defined, 0⟩, []) :=
    run_append (run_of_skipping rfl hbody) (run_singleton _ _)
  exact run_cons hifndef (run_cons hdefine hrest)

/-- **Each of several guarded headers comes through exactly when their macros are
different** and not defined before. A line of each tells whether it came through. -/
theorem forall₂_includeAll_guarded {α : Type} {items : List α} {name : α → String}
    {body : α → List (List Char)} {line : α → List Char} (hp : p.skipped = 0)
    (hline : ∀ a ∈ items, line a ∈ body a)
    (hbody : ∀ a ∈ items, ∀ l ∈ body a, Directive.ofLine l = .other) :
    List.Forall₂ (fun a passed => line a ∈ passed) items
        (p.includeAll (items.map fun a => guarded (name a) (body a)))
      ↔ (items.map fun a => (name a).toList).Nodup ∧ ∀ a ∈ items, (name a).toList ∉ p.defined := by
  induction items generalizing p with
  | nil => exact iff_of_true .nil ⟨List.nodup_nil, nofun⟩
  | cons a items ih =>
    obtain ⟨hlineA, hlines⟩ := List.forall_mem_cons.1 hline
    obtain ⟨hbodyA, hbodies⟩ := List.forall_mem_cons.1 hbody
    rw [List.map_cons, includeAll, List.forall_mem_cons]
    by_cases hname : (name a).toList ∈ p.defined
    · rw [run_guarded_of_mem hp hname hbodyA, List.forall₂_cons]
      exact iff_of_false (fun h => List.not_mem_nil h.1) fun h => h.2.1 hname
    · have hrest := ih (p := { p with defined := (name a).toList :: p.defined }) hp hlines hbodies
      rw [run_guarded_of_not_mem hp hname hbodyA, List.forall₂_cons, hrest,
        and_iff_right hlineA, and_iff_right hname, List.map_cons, List.nodup_cons]
      simp only [List.mem_map, List.mem_cons, not_exists, not_and, not_or]
      constructor
      · exact fun ⟨hnodup, hfree⟩ => ⟨⟨fun b hb => (hfree b hb).1, hnodup⟩,
          fun b hb => (hfree b hb).2⟩
      · exact fun ⟨⟨hnew, hnodup⟩, hfree⟩ => ⟨hnodup, fun b hb => ⟨hnew b hb, hfree b hb⟩⟩

end Preprocessor

/-! ## Guarded classes -/

namespace Header

/-- The lines of a header between the directives of its guard, without comments. -/
def guardedLines (h : Header) : List String :=
  ["", "#include <SeriStruct.hpp>", ""]
    ++ (match h.scope with
      | some scope => ["namespace " ++ scope, "\x7b"]
      | none => [])
    ++ ["using SeriStruct::Record;", ""]
    ++ h.body.uncommented
    ++ (match h.scope with
      | some _ => ["\x7d "]
      | none => [])
    ++ [""]

theorem uncommented_of_guarded {h : Header} {name : String} (hname : h.macroName = some name) :
    h.uncommented = ["#ifndef " ++ name, "#define " ++ name] ++ h.guardedLines ++ ["#endif"] := by
  unfold uncommented openingLines closingCode guardedLines
  rw [hname]
  cases h.scope <;> simp

end Header

namespace Record

variable {r : Record} {options : Options}

/-- The macro of a record is made from its name in upper case. -/
theorem toList_guardMacro (r : Record) : r.guardMacro.toList
    = "SERISTRUCT_RECORD_".toList ++ Text.uppercase r.name.toList ++ "_HPP".toList := by
  have hupper : (String.ofList (Text.uppercase r.name.toList)).toList
      = Text.uppercase r.name.toList := String.toList_ofList
  unfold guardMacro
  simp only [String.toList_append, hupper]

/-- **Records have the same macro when their names are the same in upper case.** -/
theorem guardMacro_inj {r' : Record} : r.guardMacro = r'.guardMacro
    ↔ Text.uppercase r.name.toList = Text.uppercase r'.name.toList := by
  rw [← String.toList_inj, toList_guardMacro, toList_guardMacro, List.append_left_inj,
    List.append_right_inj]

/-- The lines of the header between the directives of its guard, without comments. -/
def guardedLines (r : Record) (options : Options) : List String :=
  (r.header r.exactLayout options).guardedLines

/-- The code of a guarded header. -/
theorem code_eq_guarded (hguard : options.inclusionGuard = .macroName) :
    r.code options = guarded r.guardMacro (nonblank (r.guardedLines options)) := by
  have hname : (r.header r.exactLayout options).macroName = some r.guardMacro := by
    unfold header
    rw [hguard]
  have hlines : (r.header r.exactLayout options).uncommented
      = ["#ifndef " ++ r.guardMacro, "#define " ++ r.guardMacro] ++ r.guardedLines options
        ++ ["#endif"] :=
    Header.uncommented_of_guarded hname
  -- a directive is not blank
  have hdirectives : nonblank ["#ifndef " ++ r.guardMacro, "#define " ++ r.guardMacro]
      = [("#ifndef " ++ r.guardMacro).toList, ("#define " ++ r.guardMacro).toList] := by
    refine List.filter_eq_self.2 ?_
    simp only [List.map_cons, List.map_nil, List.forall_mem_cons, String.toList_append,
      List.all_append]
    exact ⟨rfl, rfl, nofun⟩
  rw [code, hlines, nonblank_append, nonblank_append, hdirectives]
  rfl

/-- The class is in the code of a guarded header. -/
theorem headLine_mem_guardedLines :
    (ClassDecl.headLine r.name).toList ∈ nonblank (r.guardedLines options) := by
  have hmem : ClassDecl.headLine r.name ∈ r.guardedLines options := by
    unfold guardedLines Header.guardedLines ClassDecl.uncommented header ClassDecl.ofRecord
    simp
  refine List.mem_filter.2 ⟨List.mem_map_of_mem hmem, ?_⟩
  unfold ClassDecl.headLine
  simp only [String.toList_append, List.all_append]
  rfl

theorem names_exactLayout (r : Record) :
    r.exactLayout.slots.map Slot.name = r.fields.map Field.name := by
  rw [exactLayout, exactSlots_eq]
  exact map_name_exactSlotsFrom 0 r.fields

/-- A guarded header has no directives but those of its guard. -/
theorem ofLine_of_mem_guardedLines (h : r.WellFormed) (hscope : options.invalidScope? = none) :
    ∀ l ∈ nonblank (r.guardedLines options), Directive.ofLine l = .other := by
  have hplain : ∀ {l : String}, (∀ c ∈ l.toList, Text.isPlain c = true) → '#' ∉ l.toList :=
    fun hl hmem => (Text.isPlain_iff.1 (hl _ hmem)).1.2 rfl
  have hbody : ∀ l ∈ (r.header r.exactLayout options).body.uncommented, '#' ∉ l.toList :=
    fun l hl => hplain (madeOf_uncommented h r.names_exactLayout options.allMutable l hl).plain
  have hlines : ∀ l ∈ r.guardedLines options,
      l = "#include <SeriStruct.hpp>" ∨ '#' ∉ l.toList := by
    unfold guardedLines Header.guardedLines
    simp only [List.forall_mem_append]
    refine ⟨⟨⟨⟨⟨by decide +kernel, ?opened⟩, by decide +kernel⟩, fun l hl => .inr (hbody l hl)⟩,
      ?closed⟩, by decide +kernel⟩
    case opened =>
      cases hs : (r.header r.exactLayout options).scope with
      | none => exact nofun
      | some s =>
        have hname : '#' ∉ ("namespace " ++ s).toList := by
          rw [String.toList_append, List.mem_append, not_or]
          exact ⟨by decide, hplain (options.isPlain_scope hscope s hs)⟩
        simp only [List.forall_mem_cons]
        exact ⟨.inr hname, .inr (by decide), nofun⟩
    case closed =>
      cases (r.header r.exactLayout options).scope with
      | none => exact nofun
      | some s =>
        simp only [List.forall_mem_cons]
        exact ⟨.inr (by decide), nofun⟩
  intro l hl
  obtain ⟨l, hmem, rfl⟩ := List.mem_map.1 (List.mem_of_mem_filter hl)
  rcases hlines l hmem with rfl | hsign
  · decide
  · exact Directive.ofLine_eq_other hsign

end Record

/-- The macros of records are different when their names in upper case are. -/
theorem nodup_guardMacro_iff {records : List Record} :
    (records.map Record.guardMacro).Nodup
      ↔ (records.map fun r => Text.uppercase r.name.toList).Nodup := by
  rw [List.Nodup, List.Nodup, List.pairwise_map, List.pairwise_map]
  exact List.Pairwise.iff fun r r' => Record.guardMacro_inj.not

/-- **The classes of guarded headers all come through exactly when the names of their
records are different in upper case.** Whatever compiles with guards: so it is for the
macros, and so it is for the classes where all headers are included one after the
other – as far as the options are valid and the documentation is hidden. -/
theorem guarded_classes_pass_iff {text : String} {options : Options} {c : Compilation}
    (h : compile text options = .ok c) (hguard : options.inclusionGuard = .macroName) :
    ((c.schema.records.map Record.guardMacro).Nodup
        ↔ (c.schema.records.map fun r => Text.uppercase r.name.toList).Nodup)
      ∧ (options.invalidScope? = none → c.schema.DocsHidden →
        (List.Forall₂ (fun r passed => (ClassDecl.headLine r.name).toList ∈ passed)
            c.schema.records (Preprocessor.includeAll ⟨[], 0⟩ (c.files.map HeaderFile.codeLines))
          ↔ (c.schema.records.map fun r => Text.uppercase r.name.toList).Nodup)) := by
  refine ⟨nodup_guardMacro_iff, fun hscope hdocs => ?_⟩
  have hwf : c.schema.WellFormed := Schema.wellFormed_of_ofLines (compile_eq_ok_iff.1 h).1
  have hcode : c.files.map HeaderFile.codeLines = c.schema.records.map fun r =>
      guarded r.guardMacro (nonblank (r.guardedLines options)) := by
    rw [(map_codeLines_eq_iff h hscope).2 hdocs]
    exact List.map_congr_left fun r _ => r.code_eq_guarded hguard
  have hmacros : (c.schema.records.map fun r => r.guardMacro.toList).Nodup
      ↔ (c.schema.records.map Record.guardMacro).Nodup := by
    rw [← List.nodup_map_iff fun a b => String.toList_inj.1, List.map_map]
    rfl
  rw [hcode, Preprocessor.forall₂_includeAll_guarded rfl
    (fun r _ => r.headLine_mem_guardedLines)
    (fun r hr => r.ofLine_of_mem_guardedLines (hwf r hr) hscope), hmacros,
    nodup_guardMacro_iff]
  exact and_iff_left fun _ _ => List.not_mem_nil

theorem guarded_pair_passes :
    ∃ c, compile "a:\n  x u8\n\nB:\n  \"The value.\"\n  x u8\n" { inclusionGuard := .macroName }
        = .ok c
      ∧ (c.schema.records.map Record.guardMacro).Nodup
      ∧ List.Forall₂ (fun r passed => (ClassDecl.headLine r.name).toList ∈ passed)
          c.schema.records
          (Preprocessor.includeAll ⟨[], 0⟩ (c.files.map HeaderFile.codeLines)) := by
  obtain ⟨c, hc, hdocs, hnodup⟩ : ∃ c,
      compile "a:\n  x u8\n\nB:\n  \"The value.\"\n  x u8\n" { inclusionGuard := .macroName }
          = .ok c
        ∧ c.schema.DocsContained
        ∧ (c.schema.records.map fun r => Text.uppercase r.name.toList).Nodup :=
    exists_compile_eq_ok (by decide +kernel)
  have hiff := guarded_classes_pass_iff hc rfl
  exact ⟨c, hc, hiff.1.2 hnodup, (hiff.2 rfl hdocs.hidden).2 hnodup⟩

/-- Two records whose names differ in case alone compile. -/
theorem guarded_in_two_cases_compile :
    ∃ c, compile "a:\n  x u8\n\nA:\n  x u8\n" { inclusionGuard := .macroName } = .ok c
      ∧ (c.schema.records.map Record.name).Nodup
      ∧ ¬ (c.schema.records.map Record.guardMacro).Nodup :=
  exists_compile_eq_ok (by decide +kernel)

end FlatRecord
