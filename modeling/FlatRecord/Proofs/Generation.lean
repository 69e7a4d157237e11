import FlatRecord.Generate
import FlatRecord.Proofs.Directories
import FlatRecord.Session

/-!
# What a run does to the files

A run goes through five stages: it checks its options, reads the schema, looks at
the output, compiles, and writes. Only the last one touches a file. So a run that
is refused before it leaves the tree as it was, and any other has compiled the
whole schema when it makes the first directory.

Of the writing each part is accounted for: the directories that are missing on
the way of the output, then the files, one after the other, up to the first that
cannot be written. A run is described by its outcome (`Outcome`), which has one
case for each way to end, and nothing but what the outcome tells has changed in
the tree.
-/

namespace FlatRecord

variable {α β : Type}

/-! ## A run on a session -/

namespace Session

/-- A session with events reported. -/
def logged (s : Session) (events : List Event) : Session := { s with log := s.log ++ events }

@[simp]
theorem tree_logged (s : Session) (events : List Event) : (s.logged events).tree = s.tree := rfl

@[simp]
theorem cwd_logged (s : Session) (events : List Event) : (s.logged events).cwd = s.cwd := rfl

@[simp]
theorem logged_nil (s : Session) : s.logged [] = s := by
  unfold logged
  rw [List.append_nil]

@[simp]
theorem logged_logged (s : Session) (events events' : List Event) :
    (s.logged events).logged events' = s.logged (events ++ events') := by
  unfold logged
  rw [List.append_assoc]

theorem run_isFile (path : String) (s : Session) :
    (Host.isFile path : StateM Session Bool).run s = (s.tree.isFile s.cwd (.ofText path), s) := rfl

theorem run_readFile (path : String) (s : Session) :
    (Host.readFile path : StateM Session _).run s = (s.tree.readFile s.cwd (.ofText path), s) := rfl

end Session

/-- What a part of a run makes of a session: its result, and the session after it. -/
def Run.on (x : Run (StateM Session) α) (s : Session) : Except Failure α × Session := x.run.run s

namespace Run

theorem on_lift (x : StateM Session α) (s : Session) :
    Run.on (ExceptT.lift x) s = (.ok (x.run s).1, (x.run s).2) := rfl

/-- The second of two parts goes on from what the first leaves, when that has
not failed. -/
theorem on_bind (x : Run (StateM Session) α) (f : α → Run (StateM Session) β) (s : Session) :
    (x >>= f).on s = match x.on s with
      | (.ok a, s') => (f a).on s'
      | (.error e, s') => (.error e, s') := by
  show ((x.run >>= ExceptT.bindCont f).run s : Id _) = _
  rw [StateT.run_bind]
  unfold Run.on
  show ((ExceptT.bindCont f (x.run.run s).1).run (x.run.run s).2 : Id _) = _
  generalize x.run.run s = r
  obtain ⟨result, s'⟩ := r
  cases result <;> rfl

theorem on_report (e : Event) (s : Session) :
    (report e : Run (StateM Session) Unit).on s = (.ok (), s.logged [e]) := rfl

theorem on_reportAll (events : List Event) (s : Session) :
    (reportAll events : Run (StateM Session) Unit).on s = (.ok (), s.logged events) := by
  induction events generalizing s with
  | nil =>
    rw [Session.logged_nil]
    rfl
  | cons e rest ih =>
    unfold reportAll
    rw [on_bind, on_report]
    show (reportAll rest).on (s.logged [e]) = _
    rw [ih, Session.logged_logged]
    rfl

/-- An operation that fails ends the run, in the way it is told to. -/
theorem on_attempt (failure : IoError → Failure) (operation : StateM Session (Except IoError α))
    (s : Session) :
    (attempt failure operation : Run (StateM Session) α).on s
      = ((operation.run s).1.mapError failure, (operation.run s).2) := by
  unfold attempt
  rw [on_bind, on_lift]
  generalize operation.run s = r
  obtain ⟨result, s'⟩ := r
  cases result <;> rfl

end Run

/-! ## The stages -/

namespace FileTree

theorem readFile_eq_ok_iff {t : FileTree} {cwd : Location} {p : Path} {content : ByteArray} :
    t.readFile cwd p = .ok content ↔ t.entryAt cwd p = .ok (.file content) := by
  unfold readFile
  rw [bind_eq_ok]
  constructor
  · rintro ⟨entry, hentry, hcontent⟩
    cases entry with
    | directory => cases hcontent
    | file c =>
      cases hcontent
      exact hentry
  · intro h
    exact ⟨_, h, rfl⟩

/-- There is a file at a path when its bytes can be read. -/
theorem isFile_iff {t : FileTree} {cwd : Location} {p : Path} :
    t.isFile cwd p = true ↔ ∃ content, t.readFile cwd p = .ok content := by
  simp only [readFile_eq_ok_iff]
  unfold isFile
  split
  · rename_i content h
    exact ⟨fun _ => ⟨content, h⟩, fun _ => rfl⟩
  · rename_i h
    exact ⟨nofun, fun ⟨content, hcontent⟩ => absurd hcontent (h content)⟩

end FileTree

/-- **The schema that a run reads**: there is a file at the input, and its bytes
are a text in UTF-8. -/
def Session.Reads (s : Session) (input text : String) : Prop :=
  ∃ content, s.tree.readFile s.cwd (.ofText input) = .ok content
    ∧ String.fromUTF8? content = some text

/-- What can be wrong with the input: it is not a file, or not a text. -/
inductive Unreadable (s : Session) (input : String) : Failure → Prop where
  /-- There is no file. -/
  | notFound (h : s.tree.isFile s.cwd (.ofText input) = false) :
      Unreadable s input (.inputNotFound input)
  /-- The bytes are no UTF-8. -/
  | notUtf8 {content : ByteArray} (h : s.tree.readFile s.cwd (.ofText input) = .ok content)
      (htext : String.fromUTF8? content = none) : Unreadable s input (.io .notUtf8)

theorem Unreadable.logged {s : Session} {input : String} {failure : Failure}
    (h : Unreadable s input failure) (events : List Event) :
    Unreadable (s.logged events) input failure := by
  cases h with
  | notFound h => exact .notFound h
  | notUtf8 h htext => exact .notUtf8 h htext

section

variable (s : Session)

theorem on_check (o : Options) :
    ∃ events, o.check.on s
      = match o.invalidScope? with
        | some scope => (.error (.invalidNamespace scope), s)
        | none => (.ok (), s.logged events) := by
  refine ⟨if o.extensionHasPeriod then [] else [.extensionWithoutPeriod o.extension], ?_⟩
  unfold Options.check
  cases o.invalidScope? with
  | some scope => rfl
  | none =>
    cases o.extensionHasPeriod with
    | true => exact congrArg (Prod.mk (Except.ok ())) s.logged_nil.symm
    | false => rfl

theorem on_readSchema_of_isFile {input : String}
    (h : s.tree.isFile s.cwd (.ofText input) = true) :
    (readSchema input).on s
      = match s.tree.readFile s.cwd (.ofText input) with
        | .ok content =>
          match String.fromUTF8? content with
          | some text => (.ok text, s.logged [.reading input])
          | none => (.error (.io .notUtf8), s.logged [.reading input])
        | .error e => (.error (.io e), s.logged [.reading input]) := by
  unfold readSchema
  simp only [Run.on_bind, Run.on_lift, Session.run_isFile, h, if_true, Run.on_report,
    Run.on_attempt, Session.run_readFile, Session.tree_logged, Session.cwd_logged]
  cases s.tree.readFile s.cwd (.ofText input) with
  | error e => rfl
  | ok content =>
    simp only [Except.mapError]
    cases String.fromUTF8? content <;> rfl

variable {s} in
theorem Session.Reads.on_readSchema {input text : String} (h : s.Reads input text) :
    (readSchema input).on s = (.ok text, s.logged [.reading input]) := by
  obtain ⟨content, hread, htext⟩ := h
  rw [on_readSchema_of_isFile s (FileTree.isFile_iff.2 ⟨content, hread⟩), hread]
  simp only [htext]

variable {s} in
theorem Unreadable.on_readSchema {input : String} {failure : Failure}
    (h : Unreadable s input failure) :
    ∃ events, (readSchema input).on s = (.error failure, s.logged events) := by
  cases h with
  | notFound h =>
    refine ⟨[], ?_⟩
    unfold readSchema
    simp only [Run.on_bind, Run.on_lift, Session.run_isFile, h, Session.logged_nil]
    rfl
  | @notUtf8 content hread htext =>
    rw [on_readSchema_of_isFile s (FileTree.isFile_iff.2 ⟨content, hread⟩), hread]
    exact ⟨[.reading input], by simp only [htext]⟩

theorem reads_or_unreadable (input : String) :
    (∃ text, s.Reads input text) ∨ ∃ failure, Unreadable s input failure := by
  cases hfile : s.tree.isFile s.cwd (.ofText input) with
  | false => exact .inr ⟨_, .notFound hfile⟩
  | true =>
    obtain ⟨content, hread⟩ := FileTree.isFile_iff.1 hfile
    cases htext : String.fromUTF8? content with
    | some text => exact .inl ⟨text, content, hread, htext⟩
    | none => exact .inr ⟨_, .notUtf8 hread htext⟩

theorem on_checkOutput (output : String) :
    (checkOutput output).on s
      = (if s.tree.isFile s.cwd (.ofText output) then .error (.outputIsFile output) else .ok (),
        s) := by
  unfold checkOutput
  rw [Run.on_bind, Run.on_lift, Session.run_isFile]
  cases s.tree.isFile s.cwd (.ofText output) <;> rfl

theorem on_compileReported (text : String) (options : Options) :
    (compileReported text options).on s
      = ((compile text options).mapError .schema, s.logged (compileEvents text)) := by
  unfold compileReported
  rw [Run.on_bind, Run.on_reportAll]
  cases compile text options <;> rfl

end

/-! ## Writing -/

/-- Where a header goes in a directory. -/
def HeaderFile.path (directory : String) (file : HeaderFile) : Path :=
  .ofText (Path.join directory file.fileName)

/-- The location of a header in a directory. -/
def HeaderFile.location (cwd : Location) (directory : String) (file : HeaderFile) : Location :=
  (file.path directory).location cwd

/-- **Headers written one after the other.** Each is put, complete, at the location
of its path in the tree that those before it leave. -/
inductive Writes (cwd : Location) (directory : String) :
    FileTree → List HeaderFile → FileTree → Prop where
  /-- There is nothing to write. -/
  | nil {t : FileTree} : Writes cwd directory t [] t
  /-- One header is written, and then the rest. -/
  | cons {t t' : FileTree} {file : HeaderFile} {rest : List HeaderFile}
      (hfile : t.writeFile cwd (file.path directory) file.source.toUTF8
        = .ok (t.put (file.location cwd directory) (.file file.source.toUTF8)))
      (hrest : Writes cwd directory
        (t.put (file.location cwd directory) (.file file.source.toUTF8)) rest t') :
      Writes cwd directory t (file :: rest) t'

/-- Where no header is written, nothing changes. -/
theorem Writes.get?_of_not_mem {cwd : Location} {directory : String} {t t' : FileTree}
    {files : List HeaderFile} (h : Writes cwd directory t files t') {loc : Location}
    (hloc : loc ∉ files.map (·.location cwd directory)) :
    t'.get? loc = t.get? loc := by
  induction h with
  | nil => rfl
  | cons hfile hrest ih =>
    rw [List.map_cons, List.mem_cons, not_or] at hloc
    rw [ih hloc.2, FileTree.get?_put_of_ne _ hloc.1]

theorem run_writeFile (path text : String) (s : Session) :
    (Host.writeFile path text : StateM Session _).run s = s.writeFile path text := rfl

theorem run_makeDirs (path : String) (s : Session) :
    (Host.makeDirs path : StateM Session _).run s
      = s.change (FileTree.makeDirs s.cwd (.ofText path)) := rfl

/-- A file that cannot be written ends the writing. -/
theorem on_writeFiles_of_error {directory : String} {file : HeaderFile} {s : Session}
    {e : IoError}
    (h : s.tree.writeFile s.cwd (file.path directory) file.source.toUTF8 = .error e)
    (rest : List HeaderFile) :
    (writeFiles directory (file :: rest)).on s
      = (.error (.fileNotWritten (Path.join directory file.fileName) e),
        s.logged [.writingFile file.record (Path.join directory file.fileName)]) := by
  unfold HeaderFile.path at h
  unfold writeFiles
  simp only [Run.on_bind, Run.on_report, Run.on_attempt, run_writeFile, Session.writeFile,
    Session.tree_logged, Session.cwd_logged, h, Except.mapError]

/-- After a file that is written come the others. -/
theorem on_writeFiles_of_ok {directory : String} {file : HeaderFile} {s : Session}
    {t : FileTree} (h : s.tree.writeFile s.cwd (file.path directory) file.source.toUTF8 = .ok t)
    (rest : List HeaderFile) :
    ∃ s', s'.tree = t ∧ s'.cwd = s.cwd
      ∧ (writeFiles directory (file :: rest)).on s
        = ((((writeFiles directory rest).on s').1.map (Path.join directory file.fileName :: ·)),
          ((writeFiles directory rest).on s').2) := by
  unfold HeaderFile.path at h
  refine ⟨{ s.logged [.writingFile file.record (Path.join directory file.fileName)]
      with tree := t },
    rfl, rfl, ?_⟩
  conv_lhs => unfold writeFiles
  simp only [Run.on_bind, Run.on_report, Run.on_attempt, run_writeFile, Session.writeFile,
    Session.tree_logged, Session.cwd_logged, h, Except.mapError]
  generalize (writeFiles directory rest).on _ = r
  obtain ⟨result, s'⟩ := r
  cases result <;> rfl

/-- **The writing of files ends with all of them written, or at one that cannot be**,
with those before it written. -/
theorem on_writeFiles (directory : String) (files : List HeaderFile) (s : Session) :
    ∃ s', s'.cwd = s.cwd
      ∧ ((Writes s.cwd directory s.tree files s'.tree
          ∧ (writeFiles directory files).on s
            = (.ok (files.map fun file => Path.join directory file.fileName), s'))
        ∨ ∃ before file after e, files = before ++ file :: after
          ∧ Writes s.cwd directory s.tree before s'.tree
          ∧ s'.tree.writeFile s.cwd (file.path directory) file.source.toUTF8 = .error e
          ∧ (writeFiles directory files).on s
            = (.error (.fileNotWritten (Path.join directory file.fileName) e), s')) := by
  induction files generalizing s with
  | nil => exact ⟨s, rfl, .inl ⟨.nil, rfl⟩⟩
  | cons file rest ih =>
    cases hfile : s.tree.writeFile s.cwd (file.path directory) file.source.toUTF8 with
    | error e =>
      exact ⟨s.logged [.writingFile file.record (Path.join directory file.fileName)], rfl,
        .inr ⟨[], file, rest, e, rfl, .nil, hfile, on_writeFiles_of_error hfile rest⟩⟩
    | ok t =>
      obtain ⟨s₁, htree, hcwd, hrest⟩ := on_writeFiles_of_ok hfile rest
      obtain ⟨-, -, -, -, rfl⟩ := FileTree.writeFile_eq_ok hfile
      obtain ⟨s', hcwd', hends⟩ := ih s₁
      rw [htree, hcwd] at hends
      refine ⟨s', hcwd'.trans hcwd, ?_⟩
      rcases hends with ⟨hwrites, hon⟩ | ⟨before, last, after, e, hsplit, hwrites, hlast, hon⟩
      · refine .inl ⟨.cons hfile hwrites, ?_⟩
        rw [hrest, hon]
        rfl
      · refine .inr ⟨file :: before, last, after, e, by rw [hsplit]; rfl, .cons hfile hwrites,
          hlast, ?_⟩
        rw [hrest, hon]
        rfl

/-- A directory that cannot be made ends the writing. -/
theorem on_writeGenerated_of_error {directory : String} {s : Session} {e : IoError}
    {t : FileTree} (h : (FileTree.makeDirs s.cwd (.ofText directory)).run s.tree = .error e t)
    (files : List HeaderFile) :
    (writeGenerated directory files).on s = (.error (.io e), { s with tree := t }) := by
  unfold writeGenerated
  rw [Run.on_bind, Run.on_attempt, run_makeDirs]
  unfold Session.change
  rw [h]
  rfl

/-- In a directory that was made the files are written. -/
theorem on_writeGenerated_of_ok {directory : String} {s : Session} {t : FileTree}
    (h : (FileTree.makeDirs s.cwd (.ofText directory)).run s.tree = .ok () t)
    (files : List HeaderFile) :
    ∃ s', s'.tree = t ∧ s'.cwd = s.cwd
      ∧ (writeGenerated directory files).on s = (writeFiles directory files).on s' := by
  refine ⟨{ s with tree := t }.logged [.writingFiles directory], rfl, rfl, ?_⟩
  unfold writeGenerated
  rw [Run.on_bind, Run.on_attempt, run_makeDirs]
  unfold Session.change
  rw [h]
  exact Run.on_bind _ _ _

/-! ## The outcome -/

section

variable (s : Session) (input output : String) (options : Options)

/-- **A run that is refused**, for what it fails with: of all there is against it,
the first. -/
inductive Refused : Failure → Prop where
  /-- The namespace cannot be opened. -/
  | scope {scope : String} (h : options.invalidScope? = some scope) :
      Refused (.invalidNamespace scope)
  /-- The input cannot be read. -/
  | input {failure : Failure} (hscope : options.invalidScope? = none)
      (h : Unreadable s input failure) : Refused failure
  /-- The output is a file. -/
  | output {text : String} (hscope : options.invalidScope? = none) (hread : s.Reads input text)
      (h : s.tree.isFile s.cwd (.ofText output) = true) : Refused (.outputIsFile output)
  /-- The schema does not compile. -/
  | schema {text : String} {e : SchemaError} (hscope : options.invalidScope? = none)
      (hread : s.Reads input text) (houtput : s.tree.isFile s.cwd (.ofText output) = false)
      (h : compile text options = .error e) : Refused (.schema e)

/-- Whether a failure comes before the writing always. An error of the operating
system can come before it and in it. -/
def Failure.precedesWriting : Failure → Bool
  | .schema _ | .inputNotFound _ | .outputIsFile _ | .invalidNamespace _ => true
  | .io _ | .fileNotWritten .. => false

/-- **A run that comes to its writing**: nothing is against it, and the text of the
input compiles. -/
structure Admitted (c : Compilation) : Prop where
  /-- The namespace can be opened. -/
  scope : options.invalidScope? = none
  /-- The output is no file. -/
  output : s.tree.isFile s.cwd (.ofText output) = false
  /-- The input compiles. -/
  compiles : ∃ text, s.Reads input text ∧ compile text options = .ok c

/-- **The ways for a run to end**: with a result, with headers written, and with a
tree. -/
inductive Outcome : Except Failure (List HeaderFile) → List HeaderFile → FileTree → Prop where
  /-- The run was refused, and the tree is as it was. -/
  | refused {failure : Failure} (h : Refused s input output options failure) :
      Outcome (.error failure) [] s.tree
  /-- The directory could not be made. Those made before it stay. -/
  | noDirectory {c : Compilation} {e : IoError} {t : FileTree}
      (h : Admitted s input output options c)
      (hdirs : (FileTree.makeDirs s.cwd (.ofText output)).run s.tree = .error e t)
      (hadds : FileTree.AddsDirectories ((Path.ofText output).trail s.cwd) s.tree t) :
      Outcome (.error (.io e)) [] t
  /-- A header could not be written. Those before it are. -/
  | stopped {c : Compilation} {before after : List HeaderFile} {file : HeaderFile} {e : IoError}
      {made t : FileTree} (h : Admitted s input output options c)
      (hmade : FileTree.DirectoriesMade s.cwd (.ofText output) s.tree made)
      (hfiles : c.files = before ++ file :: after) (hwrites : Writes s.cwd output made before t)
      (hfile : t.writeFile s.cwd (file.path output) file.source.toUTF8 = .error e) :
      Outcome (.error (.fileNotWritten (Path.join output file.fileName) e)) before t
  /-- All headers were written. -/
  | finished {c : Compilation} {made t : FileTree} (h : Admitted s input output options c)
      (hmade : FileTree.DirectoriesMade s.cwd (.ofText output) s.tree made)
      (hwrites : Writes s.cwd output made c.files t) :
      Outcome (.ok c.files) c.files t

end

section

variable {s : Session} {input output : String} {options : Options}

/-- With good options a run begins with reading. -/
theorem on_generateFiles (input output : String) (hscope : options.invalidScope? = none) :
    ∃ events, (generateFiles input output options).on s
      = (readSchema input >>= fun text => checkOutput output >>= fun _ =>
          compileReported text options >>= fun c => writeGenerated output c.files >>= fun _ =>
          pure c.files).on (s.logged events) := by
  obtain ⟨events, hcheck⟩ := on_check s options
  refine ⟨events, ?_⟩
  unfold generateFiles
  rw [Run.on_bind, hcheck, hscope]

/-- With a schema that can be read it goes on to the output. -/
theorem on_generateFiles_of_reads {text : String} (output : String)
    (hscope : options.invalidScope? = none) (hread : s.Reads input text) :
    ∃ events, (generateFiles input output options).on s
      = (checkOutput output >>= fun _ => compileReported text options >>= fun c =>
          writeGenerated output c.files >>= fun _ => pure c.files).on (s.logged events) := by
  obtain ⟨events, hrun⟩ := on_generateFiles (s := s) input output hscope
  have hreading : (readSchema input).on (s.logged events) = _ :=
    Session.Reads.on_readSchema (s := s.logged events) hread
  exact ⟨_, by rw [hrun, Run.on_bind, hreading, Session.logged_logged]⟩

/-- With an output that is no file it compiles, and then writes. -/
theorem on_generateFiles_of_output {text : String} (hscope : options.invalidScope? = none)
    (hread : s.Reads input text) (houtput : s.tree.isFile s.cwd (.ofText output) = false) :
    ∃ events, (generateFiles input output options).on s
      = match compile text options with
        | .ok c => (writeGenerated output c.files >>= fun _ => pure c.files).on (s.logged events)
        | .error e => (.error (.schema e), s.logged events) := by
  obtain ⟨events, hrun⟩ := on_generateFiles_of_reads output hscope hread
  refine ⟨events ++ compileEvents text, ?_⟩
  rw [hrun, Run.on_bind, on_checkOutput, Session.tree_logged, Session.cwd_logged, houtput]
  show (compileReported text options >>= _).on _ = _
  rw [Run.on_bind, on_compileReported, Session.logged_logged]
  cases compile text options <;> rfl

/-- What is said of a run that is refused is what becomes of it. -/
theorem on_generateFiles_of_refused {failure : Failure}
    (h : Refused s input output options failure) :
    ∃ events, (generateFiles input output options).on s = (.error failure, s.logged events) := by
  cases h with
  | @scope scope h =>
    obtain ⟨events, hcheck⟩ := on_check s options
    refine ⟨[], ?_⟩
    unfold generateFiles
    rw [Run.on_bind, hcheck, h, Session.logged_nil]
  | input hscope h =>
    obtain ⟨events, hrun⟩ := on_generateFiles (s := s) input output hscope
    obtain ⟨events', hread⟩ := (h.logged events).on_readSchema
    refine ⟨events ++ events', ?_⟩
    rw [hrun, Run.on_bind, hread, Session.logged_logged]
  | @output text hscope hread h =>
    obtain ⟨events, hrun⟩ := on_generateFiles_of_reads output hscope hread
    refine ⟨events, ?_⟩
    rw [hrun, Run.on_bind, on_checkOutput, Session.tree_logged, Session.cwd_logged, h]
    rfl
  | @schema text e hscope hread houtput h =>
    obtain ⟨events, hrun⟩ := on_generateFiles_of_output hscope hread houtput
    refine ⟨events, ?_⟩
    rw [hrun, h]

/-- A run that is not refused writes what it has compiled. -/
theorem on_generateFiles_of_admitted {c : Compilation}
    (h : Admitted s input output options c) :
    ∃ events, (generateFiles input output options).on s
      = (writeGenerated output c.files >>= fun _ => pure c.files).on (s.logged events) := by
  obtain ⟨hscope, houtput, text, hread, hcompile⟩ := h
  obtain ⟨events, hrun⟩ := on_generateFiles_of_output hscope hread houtput
  refine ⟨events, ?_⟩
  rw [hrun, hcompile]

theorem refused_or_admitted (s : Session) (input output : String) (options : Options) :
    (∃ failure, Refused s input output options failure)
      ∨ ∃ c, Admitted s input output options c := by
  cases hscope : options.invalidScope? with
  | some scope => exact .inl ⟨_, .scope hscope⟩
  | none =>
    rcases reads_or_unreadable s input with ⟨text, hread⟩ | ⟨failure, hinput⟩
    · cases houtput : s.tree.isFile s.cwd (.ofText output) with
      | true => exact .inl ⟨_, .output hscope hread houtput⟩
      | false =>
        cases hcompile : compile text options with
        | error e => exact .inl ⟨_, .schema hscope hread houtput hcompile⟩
        | ok c => exact .inr ⟨c, hscope, houtput, text, hread, hcompile⟩
    · exact .inl ⟨_, .input hscope hinput⟩

/-- **The end of a run that is not refused**: the directory cannot be made; or it is,
and then all headers are written, or those before one that cannot be. -/
theorem Admitted.ends {c : Compilation} (h : Admitted s input output options c) :
    ∃ s',
      (∃ e, (FileTree.makeDirs s.cwd (.ofText output)).run s.tree = .error e s'.tree
        ∧ (generateFiles input output options).on s = (.error (.io e), s'))
      ∨ ∃ made, (FileTree.makeDirs s.cwd (.ofText output)).run s.tree = .ok () made
        ∧ ((Writes s.cwd output made c.files s'.tree
            ∧ (generateFiles input output options).on s = (.ok c.files, s'))
          ∨ ∃ before file after e, c.files = before ++ file :: after
            ∧ Writes s.cwd output made before s'.tree
            ∧ s'.tree.writeFile s.cwd (file.path output) file.source.toUTF8 = .error e
            ∧ (generateFiles input output options).on s
              = (.error (.fileNotWritten (Path.join output file.fileName) e), s')) := by
  obtain ⟨events, hrun⟩ := on_generateFiles_of_admitted h
  rw [hrun, Run.on_bind]
  cases hdirs : (FileTree.makeDirs s.cwd (.ofText output)).run s.tree with
  | error e t =>
    rw [on_writeGenerated_of_error (s := s.logged events) hdirs]
    exact ⟨_, .inl ⟨e, rfl, rfl⟩⟩
  | ok u made =>
    obtain ⟨s₁, rfl, hcwd, hwrite⟩ := on_writeGenerated_of_ok (s := s.logged events) hdirs c.files
    obtain ⟨s', -, hends⟩ := on_writeFiles output c.files s₁
    rw [hcwd, Session.cwd_logged] at hends
    rw [hwrite]
    refine ⟨s', .inr ⟨_, rfl, ?_⟩⟩
    rcases hends with ⟨hwrites, hon⟩ | ⟨before, file, after, e, hfiles, hwrites, hfile, hon⟩
    · rw [hon]
      exact .inl ⟨hwrites, rfl⟩
    · rw [hon]
      exact .inr ⟨before, file, after, e, hfiles, hwrites, hfile, rfl⟩

/-- **Every run has an outcome.** -/
theorem exists_outcome (s : Session) (input output : String) (options : Options) :
    ∃ written, Outcome s input output options ((generateFiles input output options).on s).1
      written ((generateFiles input output options).on s).2.tree := by
  rcases refused_or_admitted s input output options with ⟨failure, h⟩ | ⟨c, h⟩
  · obtain ⟨events, hrun⟩ := on_generateFiles_of_refused h
    rw [hrun]
    exact ⟨[], .refused h⟩
  · have hmade := FileTree.run_makeDirs s.cwd (.ofText output) s.tree
    obtain ⟨s', ⟨e, hdirs, hrun⟩ | ⟨made, hdirs, hends⟩⟩ := h.ends
    · rw [hdirs] at hmade
      rw [hrun]
      exact ⟨[], .noDirectory h hdirs hmade⟩
    · rw [hdirs] at hmade
      rcases hends with ⟨hwrites, hrun⟩ | ⟨before, file, after, e, hfiles, hwrites, hfile, hrun⟩
      · rw [hrun]
        exact ⟨c.files, .finished h hmade hwrites⟩
      · rw [hrun]
        exact ⟨before, .stopped h hmade hfiles hwrites hfile⟩

/-- What an outcome does not tell of has not changed: beside the headers that were
written there are only directories more, on the way of the output. -/
theorem Outcome.adds {result : Except Failure (List HeaderFile)} {written : List HeaderFile}
    {t : FileTree} (h : Outcome s input output options result written t) {loc : Location}
    (hloc : loc ∉ written.map (·.location s.cwd output)) :
    t.get? loc = s.tree.get? loc
      ∨ loc ∈ (Path.ofText output).trail s.cwd ∧ s.tree.get? loc = none
        ∧ t.get? loc = some .directory := by
  cases h with
  | refused _ => exact .inl rfl
  | noDirectory _ _ hadds => exact hadds loc
  | stopped _ hmade _ hwrites _ =>
    rw [hwrites.get?_of_not_mem hloc]
    exact hmade.adds loc
  | finished _ hmade hwrites =>
    rw [hwrites.get?_of_not_mem hloc]
    exact hmade.adds loc

/-- A failure that comes before the writing leaves the tree as it was. -/
theorem Outcome.tree_eq {failure : Failure} {written : List HeaderFile} {t : FileTree}
    (h : Outcome s input output options (.error failure) written t)
    (hfailure : failure.precedesWriting = true) : t = s.tree := by
  cases h with
  | refused _ => rfl
  | noDirectory _ _ _ => cases hfailure
  | stopped _ _ _ _ _ => cases hfailure

/-- **What a run does to the files.** A run that is refused, for its options, its
input, its output or its schema, fails with what it is refused for and leaves the
tree as it was, and so does any run that fails with an error of these kinds. Any
run has one of the outcomes: it is refused; or its input compiles, and then the
missing directories of the output are made, as far as that goes, and the headers
written in order, up to the first that cannot be written, whose path the failure
tells. Nothing else in the tree is changed or removed. -/
theorem generateFiles_outcome (s : Session) (input output : String) (options : Options) :
    let result := ((generateFiles input output options).on s).1
    let t := ((generateFiles input output options).on s).2.tree
    (∀ failure, Refused s input output options failure → result = .error failure ∧ t = s.tree)
      ∧ (∀ failure, result = .error failure → failure.precedesWriting = true → t = s.tree)
      ∧ ∃ written, Outcome s input output options result written t
        ∧ ∀ loc ∉ written.map (·.location s.cwd output),
            t.get? loc = s.tree.get? loc
              ∨ loc ∈ (Path.ofText output).trail s.cwd ∧ s.tree.get? loc = none
                ∧ t.get? loc = some .directory := by
  obtain ⟨written, houtcome⟩ := exists_outcome s input output options
  refine ⟨fun failure h => ?_, fun failure hfails hprecedes => ?_,
    written, houtcome, fun loc hloc => houtcome.adds hloc⟩
  · obtain ⟨events, hrun⟩ := on_generateFiles_of_refused h
    rw [hrun]
    exact ⟨rfl, rfl⟩
  · exact Outcome.tree_eq (hfails ▸ houtcome) hprecedes

end

end FlatRecord
