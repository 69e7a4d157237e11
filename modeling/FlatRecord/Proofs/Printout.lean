import FlatRecord.CommandLine
import FlatRecord.Proofs.JsonReading
import FlatRecord.Proofs.OutputFiles
import FlatRecord.Proofs.ReadBack

/-!
# What is printed and what is written

A layout leaves a call of the program in two forms: as JSON, when the arguments ask for
it, and as the constants of a class. Each form has its reader, and neither knows of the
other or of how the text came about. What is printed is read as values of JSON, in which
the layouts are looked up by the names of their parts (`Layout.ofJson?`), and they are
those of the records of the schema, in order. What is written is read as in
`HeaderFile.sourceLayout?`, and tells the same numbers.

A call that fails prints nothing, and so does one that was not asked to. It was asked when
`--print-layout` is among the arguments, whatever else there is: no value of a setting can
be mistaken for it.
-/

namespace FlatRecord

/-! ## Layouts as values -/

namespace Json

/-- The value of a member of an object. -/
def member? (key : String) : Json → Option Json
  | .object members => members.lookup key
  | _ => none

/-- The text that a value is. -/
def text? : Json → Option String
  | .text s => some s
  | _ => none

/-- The number that a value is. -/
def number? : Json → Option Nat
  | .number n => some n
  | _ => none

/-- The items of the array that a value is. -/
def items? : Json → Option (List Json)
  | .array items => some items
  | _ => none

end Json

/-- The slot that a value tells. -/
def Slot.ofJson? (v : Json) : Option Slot := do
  let name ← (← v.member? "name").text?
  let offset ← (← v.member? "offset").number?
  let padding ← (← v.member? "padding").number?
  let width ← (← v.member? "width").number?
  let align ← (← v.member? "align").number?
  return { name, offset, padding, width, align }

/-- The layout that a value tells. -/
def Layout.ofJson? (v : Json) : Option Layout := do
  let record ← (← v.member? "record").text?
  let slots ← (← (← v.member? "fields").items?).mapM Slot.ofJson?
  let bufferSize ← (← v.member? "buffer_size").number?
  return { record, slots, bufferSize }

/-- A slot as a value. -/
def Slot.toJson (s : Slot) : Json :=
  .object [("name", .text s.name), ("offset", .number s.offset), ("padding", .number s.padding),
    ("width", .number s.width), ("align", .number s.align)]

/-- A layout as a value. -/
def Layout.toJson (l : Layout) : Json :=
  .object [("record", .text l.record), ("fields", .array (l.slots.map Slot.toJson)),
    ("buffer_size", .number l.bufferSize)]

/-- Values that tell what they were made of tell it one after the other. -/
theorem mapM_map_eq_some {α β : Type} {f : α → β} {g : β → Option α}
    (h : ∀ a, g (f a) = some a) (l : List α) : (l.map f).mapM g = some l := by
  induction l with
  | nil => rfl
  | cons a l ih =>
    rw [List.map_cons, List.mapM_cons, h, ih]
    rfl

theorem Slot.ofJson?_toJson (s : Slot) : Slot.ofJson? s.toJson = some s := rfl

/-- A value tells the layout that it was made of. -/
theorem Layout.ofJson?_toJson (l : Layout) : Layout.ofJson? l.toJson = some l := by
  show ((l.slots.map Slot.toJson).mapM Slot.ofJson? >>= _) = _
  rw [mapM_map_eq_some Slot.ofJson?_toJson]
  rfl

/-! ## The lines of a layout -/

section

open Json Json.Lexer

variable {front : String} {tokens : List Token}

theorem reads_textLine (h : between.Reads front.toList tokens between) (s : String) :
    between.Reads ((front ++ Text.quote s ++ ",").toList ++ ['\n']) (tokens ++ [.text s, .comma])
      between := by
  have htext := reads_quoteChars s.toList
  rw [String.ofList_toList] at htext
  rw [Text.quote, String.toList_append, String.toList_append, String.toList_ofList,
    List.append_assoc, List.append_assoc]
  exact h.append (htext.append rfl)

theorem reads_lastLine (h : between.Reads front.toList tokens between) (n : Nat) :
    between.Reads ((front ++ n.repr).toList ++ ['\n']) (tokens ++ [.number n]) between := by
  rw [String.toList_append, List.append_assoc]
  exact h.append ((reads_repr n).before rfl)

theorem reads_numberLine (h : between.Reads front.toList tokens between) (n : Nat) :
    between.Reads ((front ++ n.repr ++ ",").toList ++ ['\n']) (tokens ++ [.number n, .comma])
      between := by
  rw [String.toList_append, String.toList_append, List.append_assoc, List.append_assoc]
  exact h.append ((reads_repr n).before rfl)

theorem reads_opening : between.Reads ("\x7b".toList ++ ['\n']) [.opensObject] between := rfl

theorem reads_closing : between.Reads ("\x7d".toList ++ ['\n']) [.closesObject] between := rfl

/-- The lines of a slot have the tokens of its value. -/
theorem Slot.lexed_jsonLines (s : Slot) : Lexed s.jsonLines s.toJson.tokens := by
  have hname : between.Reads "  \"name\": ".toList [.text "name", .colon] between := rfl
  have hoffset : between.Reads "  \"offset\": ".toList [.text "offset", .colon] between := rfl
  have hpadding : between.Reads "  \"padding\": ".toList [.text "padding", .colon] between := rfl
  have hwidth : between.Reads "  \"width\": ".toList [.text "width", .colon] between := rfl
  have halign : between.Reads "  \"align\": ".toList [.text "align", .colon] between := rfl
  have hlines := Lexed.cons reads_opening (.cons (reads_textLine hname s.name)
    (.cons (reads_numberLine hoffset s.offset) (.cons (reads_numberLine hpadding s.padding)
    (.cons (reads_numberLine hwidth s.width) (.cons (reads_lastLine halign s.align)
    (.cons reads_closing .nil))))))
  exact hlines

/-- The slots of a layout, as the array that its lines hold. -/
theorem lexed_slotLines (slots : List Slot) :
    Lexed (if slots.isEmpty then ["  \"fields\": [],"]
        else ["  \"fields\": ["] ++ deeper (deeper (separated (slots.map Slot.jsonLines)))
          ++ ["  ],"])
      ([.text "fields", .colon] ++ (Json.array (slots.map Slot.toJson)).tokens ++ [.comma]) := by
  cases slots with
  | nil => exact .single rfl
  | cons s rest =>
    have hopen : Lexed ["  \"fields\": ["] [.text "fields", .colon, .opensArray] := .single rfl
    have hclose : Lexed ["  ],"] [.closesArray, .comma] := .single rfl
    have hne : ∀ s : Slot, s.jsonLines ≠ [] := fun s => List.cons_ne_nil _ _
    have hrest : List.Forall₂ (fun item v => item ≠ [] ∧ Lexed item (Json.tokens v))
        (rest.map Slot.jsonLines) (rest.map Slot.toJson) := by
      rw [List.forall₂_map_left_iff, List.forall₂_map_right_iff, List.forall₂_same]
      exact fun s _ => ⟨hne s, s.lexed_jsonLines⟩
    have hslots := (s.lexed_jsonLines.separated hrest (hne s)).deeper.deeper
    have hlines := (hopen.append hslots).append hclose
    rw [List.isEmpty_cons, if_neg Bool.false_ne_true, List.map_cons, List.map_cons, Json.tokens,
      moreItems_eq]
    simpa using hlines

/-- **The lines of a layout have the tokens of its value.** -/
theorem Layout.lexed_jsonLines (l : Layout) : Lexed l.jsonLines l.toJson.tokens := by
  have hrecord : between.Reads "  \"record\": ".toList [.text "record", .colon] between := rfl
  have hsize : between.Reads "  \"buffer_size\": ".toList [.text "buffer_size", .colon] between :=
    rfl
  have hfront := Lexed.cons reads_opening (.single (reads_textLine hrecord l.record))
  have hback := Lexed.cons (reads_lastLine hsize l.bufferSize) (.single reads_closing)
  have hlines := (hfront.append (lexed_slotLines l.slots)).append hback
  simpa [Layout.jsonLines, Layout.toJson, Json.tokens, moreMembers] using hlines

end

/-- **The layouts that are printed can be read**, in their order. -/
theorem readAll?_printed (layouts : List Layout) :
    Json.readAll? (String.join (layouts.map Layout.json)) = some (layouts.map Layout.toJson) := by
  have hlexed : Json.Lexed (layouts.flatMap Layout.jsonLines)
      (layouts.flatMap fun l => l.toJson.tokens) := by
    induction layouts with
    | nil => exact .nil
    | cons l layouts ih => exact l.lexed_jsonLines.append ih
  have htext : (String.join (layouts.map Layout.json)).toList
      = textOf (layouts.flatMap Layout.jsonLines) := by
    rw [String.toList_join, List.flatMap_map, textOf, List.flatMap_assoc]
    exact List.flatMap_congr fun l _ => toList_join_lines l.jsonLines
  unfold Json.readAll?
  rw [htext, hlexed.tokens?]
  show Json.readValue _ _ = _
  rw [← List.flatMap_map, Json.readValue_flatMap_tokens]
  rfl

/-! ## Asking for the layouts -/

/-- The options that have been given. -/
def Intake.given : Intake → Given
  | .options g | .valueOf _ g | .ended g => g

section

variable {g g' : Given} {intake intake' : Intake} {arguments : List String}

theorem Given.switches_of_turnOn {s : Switch} (h : g.turnOn s = .ok g') :
    g'.switches = s :: g.switches := by
  unfold turnOn at h
  split at h
  · cases h
  · split at h <;> cases h
    rfl

theorem Given.switches_of_set {s : Setting} {value : String} (h : g.set s value = .ok g') :
    g'.switches = g.switches := by
  unfold set at h
  split at h <;> cases h
  rfl

theorem Intake.options_map_eq_ok {x : Except Usage Given} (h : Intake.options <$> x = .ok intake) :
    x = .ok intake.given := by
  cases x with
  | error e => cases h
  | ok g =>
    cases h
    rfl

theorem CommandOption.ofLetter?_ne (letter : Char) :
    ofLetter? letter ≠ some (.switch .printLayout) := by
  unfold ofLetter?
  split <;> exact nofun

theorem CommandOption.ofLong?_eq_printLayout {name : List Char}
    (h : ofLong? name = some (.switch .printLayout)) : name = "print-layout".toList := by
  obtain ⟨before, after, htable, -⟩ := List.lookup_eq_some_iff.1 h
  have hmem : (String.ofList name, CommandOption.switch .printLayout)
      ∈ before ++ (String.ofList name, .switch .printLayout) :: after := List.mem_append_cons_self
  rw [← htable] at hmem
  have hname : String.ofList name = "print-layout" := by simpa using hmem
  rw [← hname, String.toList_ofList]

/-- No letter asks for the layouts. -/
theorem Intake.mem_switches_afterLetters {letters : List Char}
    (h : afterLetters g letters = .ok intake) :
    Switch.printLayout ∈ intake.given.switches ↔ .printLayout ∈ g.switches := by
  induction letters generalizing g with
  | nil =>
    cases h
    rfl
  | cons letter rest ih =>
    unfold afterLetters at h
    split at h
    · rename_i s hletter
      obtain ⟨g', hturn, hrest⟩ := bind_eq_ok.1 h
      have hne : Switch.printLayout ≠ s := fun heq =>
        CommandOption.ofLetter?_ne letter (heq ▸ hletter)
      rw [ih hrest, Given.switches_of_turnOn hturn, List.mem_cons, or_iff_right hne]
    · split at h
      · cases h
        rfl
      · rw [Given.switches_of_set (options_map_eq_ok h)]
      · rw [Given.switches_of_set (options_map_eq_ok h)]
    · cases h

/-- A long option asks for the layouts when it has their name. -/
theorem Intake.mem_switches_afterLong {text : List Char} (h : afterLong g text = .ok intake) :
    Switch.printLayout ∈ intake.given.switches
      ↔ .printLayout ∈ g.switches ∨ text = "print-layout".toList := by
  by_cases htext : text = "print-layout".toList
  · subst htext
    have hturn : g.turnOn .printLayout = .ok intake.given := options_map_eq_ok h
    rw [Given.switches_of_turnOn hturn]
    exact iff_of_true List.mem_cons_self (.inr rfl)
  · rw [or_iff_left htext]
    unfold afterLong at h
    dsimp only at h
    split at h
    · rename_i s hlong hdrop
      have hwhole : text.takeWhile (· != '=') = text :=
        (List.takeWhile_prefix _).eq_of_length_le (List.drop_eq_nil_iff.1 hdrop)
      have hne : Switch.printLayout ≠ s := fun heq => htext
        (hwhole ▸ CommandOption.ofLong?_eq_printLayout (heq ▸ hlong))
      rw [Given.switches_of_turnOn (options_map_eq_ok h), List.mem_cons, or_iff_right hne]
    · cases h
      rfl
    · rw [Given.switches_of_set (options_map_eq_ok h)]
    · cases h

theorem Intake.mem_switches_read {argument : String} (h : intake.read argument = .ok intake') :
    Switch.printLayout ∈ intake'.given.switches
      ↔ .printLayout ∈ intake.given.switches ∨ argument = "--print-layout" := by
  rw [← String.toList_inj]
  unfold read at h
  split at h
  · split at h
    · rename_i hlist
      cases h
      rw [hlist]
      exact (or_iff_left (by decide)).symm
    · rename_i long hlist
      rw [hlist, mem_switches_afterLong h]
      simp [given]
    · rename_i hhyphen hlist
      rw [mem_switches_afterLetters h, hlist]
      refine (or_iff_left fun heq => hhyphen ?_).symm
      exact (List.cons.inj (List.cons.inj heq).2).1
    · cases h
  · split at h
    · cases h
    · rename_i hvalue
      rw [Given.switches_of_set (options_map_eq_ok h)]
      refine (or_iff_left fun heq => ?_).symm
      rw [String.toList_inj.1 heq] at hvalue
      exact hvalue (by decide)
  · cases h

theorem Intake.mem_switches_readAll (h : intake.readAll arguments = .ok intake') :
    Switch.printLayout ∈ intake'.given.switches
      ↔ .printLayout ∈ intake.given.switches ∨ "--print-layout" ∈ arguments := by
  induction arguments generalizing intake with
  | nil =>
    cases h
    simp
  | cons argument rest ih =>
    obtain ⟨next, hread, hrest⟩ := bind_eq_ok.1 h
    rw [ih hrest, mem_switches_read hread, List.mem_cons, or_assoc, eq_comm (a := argument)]

theorem Given.printLayout_of_request {request : Request} (h : g.request = .ok request) :
    request.printLayout = true ↔ .printLayout ∈ g.switches := by
  unfold Given.request at h
  split at h <;> cases h
  exact decide_eq_true_iff

/-- **Layouts are asked for when `--print-layout` is among the arguments.** -/
theorem CommandLine.printLayout_iff {request : Request}
    (h : CommandLine.request arguments = .ok request) :
    request.printLayout = true ↔ "--print-layout" ∈ arguments := by
  obtain ⟨intake, hread, hrequest⟩ := bind_eq_ok.1 h
  have hgiven : intake.given.request = .ok request := by
    cases intake with
    | options g | ended g => exact hrequest
    | valueOf s g => cases hrequest
  have hnone : Switch.printLayout ∉ (Intake.options .none).given.switches := List.not_mem_nil
  rw [Given.printLayout_of_request hgiven, Intake.mem_switches_readAll hread, or_iff_right hnone]

end

/-! ## The headers of a run -/

/-- **The header of a record tells a layout**: the file of the record's name in a
directory holds a source whose constants are the places and the size of that layout. -/
def Record.HeaderTells (r : Record) (options : Options) (t : FileTree) (directory : Location)
    (l : Layout) : Prop :=
  ∃ file : HeaderFile,
    t.get? (directory ++ [r.fileName options]) = some (.file file.source.toUTF8)
      ∧ ∃ told, file.sourceLayout? = some told
        ∧ told.places = l.slots.map Slot.place ∧ told.bufferSize = l.bufferSize

/-- **Headers that were written tell the layouts of their records**, when the extension
has no slash. -/
theorem Writes.headersTell {cwd : Location} {directory text : String} {options : Options}
    {c : Compilation} {made t : FileTree} (h : Writes cwd directory made c.files t)
    (hcompile : compile text options = .ok c) (hscope : options.invalidScope? = none)
    (hslash : '/' ∉ options.extension.toList) :
    List.Forall₂ (fun r l => r.HeaderTells options t ((Path.ofText directory).location cwd) l)
      c.schema.records (c.files.map (·.layout)) := by
  have hholds := h.holds (nodup_location_of_no_slash hcompile hslash cwd directory)
  have hentry : ∀ file ∈ c.files,
      t.get? ((Path.ofText directory).location cwd ++ [file.fileName])
        = some (.file file.source.toUTF8) := fun file hfile => by
    rw [← location_of_no_slash hcompile hslash hfile]
    exact hholds file hfile
  obtain ⟨hread, -, hfiles⟩ := compile_eq_ok_iff.1 hcompile
  have hrecords : List.Forall₂ (fun file r => Record.headerFile r options = .ok file)
      c.files c.schema.records := .flip hfiles
  have hnamed := (List.forall₂_and_left _ _).2 ⟨hentry, hrecords⟩
  have hmade := (List.forall₂_and_left _ _).2
    ⟨(Schema.printable_of_read hread).docs, compiled_files hcompile⟩
  rw [List.forall₂_map_right_iff]
  refine List.Forall₂.mp ?_ hmade (List.Forall₂.flip hnamed)
  rintro r file ⟨⟨hdocs, hfields⟩, hrecord⟩ ⟨hthere, hheader⟩
  obtain ⟨-, -, hname, -⟩ := Record.headerFile_eq_ok_iff.1 hheader
  rw [hname] at hthere
  exact ⟨file, hthere, _, (hrecord.readsBack hscope hdocs hfields).sourceLayout, rfl, rfl⟩

/-! ## A call of the program -/

/-- A call that runs is a run, with its end reported and made known. -/
theorem CommandLine.run_run (request : Request) (s : Session) :
    (CommandLine.run request : StateM Session CommandLine.Outcome).run s
      = match (generateFiles request.input request.output request.options).on s with
        | (.ok files, s') =>
          (⟨0, CommandLine.printedLayouts request files, none⟩, s'.logged [.generated files.length])
        | (.error failure, s') => (⟨2, "", some failure.message⟩, s') := by
  have hgenerate : (CommandLine.generate request).on s
      = match (generateFiles request.input request.output request.options).on s with
        | (.ok files, s') => (.ok files, s'.logged [.generated files.length])
        | (.error failure, s') => (.error failure, s') := by
    unfold CommandLine.generate
    rw [Run.on_bind]
    cases (generateFiles request.input request.output request.options).on s with
    | mk result s' => cases result <;> rfl
  unfold CommandLine.run
  rw [StateT.run_bind, show StateT.run (CommandLine.generate request).run s = _ from hgenerate]
  cases (generateFiles request.input request.output request.options).on s with
  | mk result s' => cases result <;> rfl

namespace CommandLine

variable {request : Request} {s : Session}

theorem tree_run (request : Request) (s : Session) :
    ((CommandLine.run request : StateM Session CommandLine.Outcome).run s).2.tree
      = ((generateFiles request.input request.output request.options).on s).2.tree := by
  rw [run_run]
  split
  · rename_i hrun
    rw [hrun]
    rfl
  · rename_i hrun
    rw [hrun]

theorem outcome_of_ok {files : List HeaderFile}
    (h : ((generateFiles request.input request.output request.options).on s).1 = .ok files) :
    ((CommandLine.run request : StateM Session CommandLine.Outcome).run s).1
      = ⟨0, printedLayouts request files, none⟩ := by
  rw [run_run]
  split <;> (rename_i hrun; rw [hrun] at h; cases h)
  rfl

theorem outcome_of_error {failure : Failure}
    (h : ((generateFiles request.input request.output request.options).on s).1
      = .error failure) :
    ((CommandLine.run request : StateM Session CommandLine.Outcome).run s).1
      = ⟨2, "", some failure.message⟩ := by
  rw [run_run]
  split <;> (rename_i hrun; rw [hrun] at h; cases h)
  rfl

end CommandLine

/-- A run that succeeds came to its writing and wrote all headers. -/
theorem exists_writes_of_ok {s : Session} {input output : String} {options : Options}
    {files : List HeaderFile}
    (h : ((generateFiles input output options).on s).1 = .ok files) :
    ∃ c made, Admitted s input output options c ∧ c.files = files
      ∧ Writes s.cwd output made c.files ((generateFiles input output options).on s).2.tree := by
  obtain ⟨written, houtcome⟩ := exists_outcome s input output options
  rw [h] at houtcome
  generalize ((generateFiles input output options).on s).2.tree = t at houtcome
  cases houtcome with
  | finished hadmitted _ hwrites => exact ⟨_, _, hadmitted, rfl, hwrites⟩

/-- **What is printed agrees with what is written.** A call leaves the files as the run
does that it makes. When the run fails, the exit code is two and nothing is printed. When
it succeeds, the exit code is zero, and nothing is printed unless `--print-layout` is among
the arguments. Then the values of JSON that are printed tell the layouts of the records of
the schema, in order, and, when there is no slash in the extension, so do the headers of
these records. -/
theorem CommandLine.printed_and_written {arguments : List String} {request : Request}
    (h : CommandLine.request arguments = .ok request) (s : Session) :
    let generated := (generateFiles request.input request.output request.options).on s
    let ended := (CommandLine.run request : StateM Session CommandLine.Outcome).run s
    ended.2.tree = generated.2.tree
      ∧ (∀ failure, generated.1 = .error failure →
          ended.1.exitCode = 2 ∧ ended.1.printed = "")
      ∧ ∀ files, generated.1 = .ok files →
          ended.1.exitCode = 0
            ∧ ("--print-layout" ∉ arguments → ended.1.printed = "")
            ∧ ("--print-layout" ∈ arguments → ∃ text schema layouts,
                s.Reads request.input text ∧ Schema.read text = .ok schema
                  ∧ List.Forall₂ (fun r l => Record.layout r = .ok l) schema.records layouts
                  ∧ (Json.readAll? ended.1.printed >>= (·.mapM Layout.ofJson?)) = some layouts
                  ∧ ('/' ∉ request.options.extension.toList →
                      List.Forall₂ (fun r l => Record.HeaderTells r request.options ended.2.tree
                        ((Path.ofText request.output).location s.cwd) l)
                        schema.records layouts)) := by
  intro generated ended
  refine ⟨tree_run request s, fun failure hfails => ?failed, fun files hok => ?succeeded⟩
  case failed =>
    rw [outcome_of_error hfails]
    exact ⟨rfl, rfl⟩
  case succeeded =>
    obtain ⟨c, made, hadmitted, rfl, hwrites⟩ := exists_writes_of_ok hok
    obtain ⟨text, hreads, hcompile⟩ := hadmitted.compiles
    have hprinted : ended.1.printed = CommandLine.printedLayouts request c.files := by
      rw [outcome_of_ok hok]
    have hread : Json.readAll? (String.join (c.files.map (·.layout.json)))
        = some ((c.files.map (·.layout)).map Layout.toJson) := by
      rw [← readAll?_printed, List.map_map]
      rfl
    refine ⟨by rw [outcome_of_ok hok], fun hmem => ?silent, fun hmem => ?_⟩
    case silent =>
      have hnot : ¬ request.printLayout = true := fun hasked =>
        hmem ((printLayout_iff h).1 hasked)
      rw [hprinted, printedLayouts, if_neg hnot]
    · refine ⟨text, c.schema, c.files.map (·.layout), hreads,
        (compile_eq_ok_iff.1 hcompile).1, ?computed, ?decoded, fun hslash => ?written⟩
      case computed =>
        rw [List.forall₂_map_right_iff]
        exact (compiled_files hcompile).imp fun r file hfile => hfile.layout
      case decoded =>
        rw [hprinted, printedLayouts, if_pos ((printLayout_iff h).2 hmem), hread]
        exact mapM_map_eq_some Layout.ofJson?_toJson _
      case written =>
        have htell := hwrites.headersTell hcompile hadmitted.scope hslash
        rwa [← tree_run] at htell

/-- A text beyond ASCII, with padding. -/
def paddedSession : Session := .withSchema "Größe:\n  a u8\n  n u64\n\nB:\n  z f32\n" []

/-- Two records, with the layouts asked for and another extension. -/
theorem CommandLine.printed_and_written_two_records :
    ∃ request files,
      CommandLine.request ["-iin", "--print-layout", "-o", "out", "--ext=.h"] = .ok request
        ∧ ((generateFiles request.input request.output request.options).on paddedSession).1
          = .ok files
        ∧ files.length = 2
        ∧ ∃ (schema : Schema) (layouts : List Layout),
          List.Forall₂ (fun r l => Record.layout r = .ok l) schema.records layouts
            ∧ (Json.readAll? ((CommandLine.run request : StateM Session _).run
                  paddedSession).1.printed >>= (·.mapM Layout.ofJson?)) = some layouts
            ∧ List.Forall₂ (fun r l => Record.HeaderTells r request.options
                ((CommandLine.run request : StateM Session _).run paddedSession).2.tree
                ((Path.ofText request.output).location paddedSession.cwd) l)
                schema.records layouts := by
  let request : Request := ⟨"in", "out", { extension := ".h" }, true⟩
  have hrequest : CommandLine.request ["-iin", "--print-layout", "-o", "out", "--ext=.h"]
      = .ok request := by decide +kernel
  obtain ⟨files, hok, hlength⟩ : ∃ files,
      ((generateFiles "in" "out" { extension := ".h" }).on paddedSession).1 = .ok files
        ∧ files.length = 2 := exists_eq_ok (by decide +kernel)
  obtain ⟨-, -, hprinted⟩ := printed_and_written hrequest paddedSession
  obtain ⟨-, -, hasked⟩ := hprinted files hok
  obtain ⟨_, schema, layouts, -, -, hcomputed, hdecoded, hwritten⟩ := hasked (by decide)
  exact ⟨request, files, hrequest, hok, hlength, schema, layouts, hcomputed, hdecoded,
    hwritten (by decide)⟩

end FlatRecord
