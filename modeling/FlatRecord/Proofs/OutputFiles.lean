import FlatRecord.Proofs.Compilation
import FlatRecord.Proofs.Generation

/-!
# One file for each record

The name of a header is that of its record with the extension behind, and the
extension is whatever the user likes. As long as there is no slash in it, the
header is an entry of the output directory, under a name of its own. With a slash
the name is a path: what comes before the slash leads to a directory, which must be
there, and the header goes to where the rest of the extension leads from it. The
last of these steps goes down by a name that is the same for all records, so two
headers that are entries of the output directory are the same one.
-/

namespace FlatRecord

/-! ## Paths of files in directories -/

namespace Path

/-- The steps that a text stands for. -/
def stepsOf (cs : List Char) : List Step :=
  ((Text.pieces (· == '/') cs).filter (!·.isEmpty)).map Step.ofChars

theorem steps_ofText (text : String) : (ofText text).steps = stepsOf text.toList := rfl

theorem stepsOf_append_cons (before after : List Char) :
    stepsOf (before ++ '/' :: after) = stepsOf before ++ stepsOf after := by
  unfold stepsOf
  rw [Text.pieces_append_cons rfl, List.filter_append, List.map_append]

/-- A name with no slash is one step down, unless it begins with a period. -/
theorem stepsOf_name {cs : List Char} (hne : cs ≠ []) (hslash : '/' ∉ cs)
    (hperiod : cs.head? ≠ some '.') : stepsOf cs = [.down (String.ofList cs)] := by
  have hcut : ∀ c ∈ cs, (c == '/') = false := fun c hc =>
    beq_eq_false_iff_ne.2 fun heq => hslash (heq ▸ hc)
  unfold stepsOf
  rw [Text.pieces_eq_singleton hcut, List.filter_cons_of_pos (by simpa using hne)]
  show [Step.ofChars cs] = _
  unfold Step.ofChars
  rw [if_neg (fun h => hperiod (by rw [h]; rfl)), if_neg (fun h => hperiod (by rw [h]; rfl))]

theorem stepsOf_ne_nil {cs : List Char} {c : Char} (hc : c ∈ cs) (hslash : c ≠ '/') :
    stepsOf cs ≠ [] := by
  have hcut : (c == '/') = false := beq_eq_false_iff_ne.2 hslash
  obtain ⟨p, hp, hmem⟩ := @Text.exists_mem_pieces (· == '/') cs c hc hcut
  have hfilter : p ∈ (Text.pieces (· == '/') cs).filter (!·.isEmpty) :=
    List.mem_filter.2 ⟨hp, by simpa using List.ne_nil_of_mem hmem⟩
  exact List.ne_nil_of_mem (List.mem_map_of_mem hfilter)

/-- The steps to a file in a directory are those to the directory and then those of
the file's name. -/
theorem steps_join (directory file : String) :
    (ofText (join directory file)).steps = (ofText directory).steps ++ (ofText file).steps := by
  unfold join
  split
  · rename_i h
    rw [steps_ofText directory, List.getLast?_eq_none_iff.1 h]
    rfl
  · rename_i h
    obtain ⟨before, hbefore⟩ := List.getLast?_eq_some_iff.1 h
    rw [steps_ofText, steps_ofText, steps_ofText, String.toList_append, hbefore,
      List.append_assoc, List.singleton_append, stepsOf_append_cons, stepsOf_append_cons,
      show stepsOf [] = [] from rfl, List.append_nil]
  · rw [steps_ofText, String.toList_append, String.toList_append, List.append_assoc]
    exact stepsOf_append_cons directory.toList file.toList

theorem toList_join (directory file : String) :
    ∃ before, (join directory file).toList = before ++ file.toList
      ∧ before.head? = directory.toList.head? := by
  unfold join
  split
  · rename_i h
    rw [List.getLast?_eq_none_iff.1 h]
    exact ⟨[], rfl, rfl⟩
  · exact ⟨directory.toList, String.toList_append, rfl⟩
  · rename_i c h
    refine ⟨directory.toList ++ ['/'], ?_, ?_⟩
    · rw [String.toList_append, String.toList_append]
      rfl
    · rw [List.head?_append, Option.or_of_isSome]
      cases hd : directory.toList with
      | nil =>
        rw [hd] at h
        cases h
      | cons c cs => rfl

/-- A file in a directory goes down from the location of the directory. -/
theorem location_join {directory file : String} (h : file.toList.head? ≠ some '/')
    (cwd : Location) :
    (ofText (join directory file)).location cwd
      = follow ((ofText directory).location cwd) (ofText file).steps := by
  have habsolute : (ofText (join directory file)).isAbsolute = (ofText directory).isAbsolute := by
    obtain ⟨before, hjoin, hhead⟩ := toList_join directory file
    show ((join directory file).toList.head? == some '/') = (directory.toList.head? == some '/')
    rw [hjoin, List.head?_append, hhead]
    cases directory.toList.head? with
    | some c => rfl
    | none => exact beq_eq_false_iff_ne.2 h
  unfold location FileTree.start
  rw [steps_join, follow_append, habsolute]

theorem endsInSlash_join {directory file : String} {c : Char}
    (h : file.toList.getLast? = some c) :
    (ofText (join directory file)).endsInSlash = (c == '/') := by
  obtain ⟨before, hjoin, -⟩ := toList_join directory file
  show ((join directory file).toList.getLast? == some '/') = _
  rw [hjoin, List.getLast?_append, h]
  rfl

end Path

/-! ## Names of headers -/

namespace Record

variable {r : Record} {options : Options}

theorem toList_fileName (r : Record) (options : Options) :
    (r.fileName options).toList = r.name.toList ++ options.extension.toList :=
  String.toList_append

/-- Without a slash in the extension, a header's name is one step down. -/
theorem steps_fileName (h : r.WellFormed) (hslash : '/' ∉ options.extension.toList) :
    (Path.ofText (r.fileName options)).steps = [.down (r.fileName options)] := by
  rw [Path.steps_ofText, Path.stepsOf_name, String.ofList_toList] <;> rw [toList_fileName]
  · exact List.append_ne_nil_of_left_ne_nil (Text.isIdentifier_ne_nil h.name) _
  · rw [List.mem_append, not_or]
    exact ⟨Text.not_mem_of_isIdentifier h.name (by decide), hslash⟩
  · exact Text.head?_ne_of_isIdentifier h.name (by decide) _

/-- With a slash, the steps behind the first are those of what follows the slash. -/
theorem steps_fileName_of_slash (h : r.WellFormed) {before after : List Char}
    (hext : options.extension.toList = before ++ '/' :: after) (hslash : '/' ∉ before) :
    ∃ name, (Path.ofText (r.fileName options)).steps = .down name :: Path.stepsOf after := by
  refine ⟨String.ofList (r.name.toList ++ before), ?_⟩
  rw [Path.steps_ofText, toList_fileName, hext, ← List.append_assoc, Path.stepsOf_append_cons,
    Path.stepsOf_name]
  · rfl
  · exact List.append_ne_nil_of_left_ne_nil (Text.isIdentifier_ne_nil h.name) _
  · rw [List.mem_append, not_or]
    exact ⟨Text.not_mem_of_isIdentifier h.name (by decide), hslash⟩
  · exact Text.head?_ne_of_isIdentifier h.name (by decide) _

end Record

/-! ## Headers in the output directory -/

/-- **One file for each record**: every header is an entry of the directory, no two
are the same one, and each holds its source. -/
structure OneFileEach (cwd : Location) (directory : String) (files : List HeaderFile)
    (t : FileTree) : Prop where
  /-- Headers are entries of the directory. -/
  entry : ∀ file ∈ files, ∃ name,
    file.location cwd directory = (Path.ofText directory).location cwd ++ [name]
  /-- They are different. -/
  apart : (files.map (·.location cwd directory)).Nodup
  /-- They hold their sources. -/
  holds : ∀ file ∈ files, t.get? (file.location cwd directory) = some (.file file.source.toUTF8)

section

variable {cwd : Location} {directory : String} {t t' : FileTree} {files : List HeaderFile}

/-- Headers at different locations hold what was written to them. -/
theorem Writes.holds (h : Writes cwd directory t files t')
    (hapart : (files.map (·.location cwd directory)).Nodup) :
    ∀ file ∈ files, t'.get? (file.location cwd directory) = some (.file file.source.toUTF8) := by
  induction h with
  | nil => exact nofun
  | @cons t t' file rest hfile hrest ih =>
    obtain ⟨hfirst, hothers⟩ := List.nodup_cons.1 hapart
    intro other hother
    rcases List.mem_cons.1 hother with rfl | hother
    · obtain ⟨-, -, -, hloc, -⟩ := FileTree.writeFile_eq_ok hfile
      rw [hrest.get?_of_not_mem hfirst]
      exact FileTree.get?_put_self t hloc _
    · exact ih hothers other hother

/-- Every header that was written went to a path that goes down at its end. -/
theorem Writes.goesDown (h : Writes cwd directory t files t') :
    ∀ file ∈ files, (file.path directory).endsInSlash = false
      ∧ ∃ name, (file.path directory).steps.getLast? = some (.down name) := by
  induction h with
  | nil => exact nofun
  | cons hfile _ ih =>
    intro other hother
    rcases List.mem_cons.1 hother with rfl | hother
    · exact FileTree.getLast?_of_writeFile hfile
    · exact ih other hother

variable {text : String} {options : Options} {c : Compilation}

/-- Headers are named after records, in order. -/
theorem map_fileName (h : compile text options = .ok c) :
    c.files.map HeaderFile.fileName = c.schema.records.map (·.fileName options) := by
  obtain ⟨-, -, hfiles⟩ := compile_eq_ok_iff.1 h
  have hnames : List.Forall₂ (fun r file => r.fileName options = HeaderFile.fileName file)
      c.schema.records c.files :=
    hfiles.imp fun r file hfile => (Record.headerFile_eq_ok_iff.1 hfile).2.2.1.symm
  exact (List.forall₂_eq_eq_eq ▸
    List.forall₂_map_left_iff.2 (List.forall₂_map_right_iff.2 hnames) : _ = _).symm

theorem exists_fileName (h : compile text options = .ok c) {file : HeaderFile}
    (hfile : file ∈ c.files) : ∃ r : Record, r.WellFormed ∧ r.fileName options = file.fileName := by
  have hwf : c.schema.WellFormed := Schema.wellFormed_of_ofLines (compile_eq_ok_iff.1 h).1
  obtain ⟨r, hr, hname⟩ :=
    List.mem_map.1 (map_fileName h ▸ List.mem_map_of_mem hfile : file.fileName ∈ _)
  exact ⟨r, hwf r hr, hname⟩

/-- A header goes where its name leads from the directory. -/
theorem location_eq (h : compile text options = .ok c) {file : HeaderFile} (hfile : file ∈ c.files)
    (cwd : Location) (directory : String) :
    file.location cwd directory
      = follow ((Path.ofText directory).location cwd) (Path.ofText file.fileName).steps := by
  obtain ⟨r, hwf, hname⟩ := exists_fileName h hfile
  refine Path.location_join ?_ cwd
  rw [← hname, Record.toList_fileName]
  exact Text.head?_ne_of_isIdentifier hwf.name (by decide) _

/-- **Without a slash in the extension** a header is the entry of its name. -/
theorem location_of_no_slash (h : compile text options = .ok c)
    (hslash : '/' ∉ options.extension.toList) {file : HeaderFile} (hfile : file ∈ c.files)
    (cwd : Location) (directory : String) :
    file.location cwd directory = (Path.ofText directory).location cwd ++ [file.fileName] := by
  obtain ⟨r, hwf, hname⟩ := exists_fileName h hfile
  rw [location_eq h hfile, ← hname, Record.steps_fileName hwf hslash]
  rfl

/-- Then no two headers are the same entry. -/
theorem nodup_location_of_no_slash (h : compile text options = .ok c)
    (hslash : '/' ∉ options.extension.toList) (cwd : Location) (directory : String) :
    (c.files.map (·.location cwd directory)).Nodup := by
  have hentry : Function.Injective fun name : String =>
      (Path.ofText directory).location cwd ++ [name] := fun a b hab =>
    List.singleton_inj.1 (List.append_cancel_left hab)
  have hextended : Function.Injective fun name : String => name ++ options.extension := by
    intro a b hab
    have hlist := congrArg String.toList hab
    simp only [String.toList_append] at hlist
    exact String.toList_inj.1 (List.append_cancel_right hlist)
  have hlocations : c.files.map (·.location cwd directory)
      = ((c.schema.records.map Record.name).map (· ++ options.extension)).map
          fun name => (Path.ofText directory).location cwd ++ [name] := by
    rw [List.map_map (g := (· ++ options.extension)),
      show c.schema.records.map ((· ++ options.extension) ∘ Record.name)
        = c.files.map HeaderFile.fileName from (map_fileName h).symm, List.map_map]
    exact List.map_congr_left fun file hfile => location_of_no_slash h hslash hfile cwd directory
  rw [hlocations, List.nodup_map_iff hentry, List.nodup_map_iff hextended]
  exact Schema.nodup_names_of_checkNames (compile_eq_ok_iff.1 h).2.1

/-- With a slash in the extension, a header that was written to an entry of the
directory has the name that what follows the slash ends with. -/
theorem getLast?_of_slash (h : compile text options = .ok c)
    (hwrites : Writes cwd directory t c.files t') {before after : List Char}
    (hext : options.extension.toList = before ++ '/' :: after) (hbefore : '/' ∉ before)
    {file : HeaderFile} (hfile : file ∈ c.files) {name : String}
    (hentry : file.location cwd directory = (Path.ofText directory).location cwd ++ [name]) :
    (Path.stepsOf after).getLast? = some (.down name) := by
  obtain ⟨r, hwf, hname⟩ := exists_fileName h hfile
  obtain ⟨hslash, last, hlast⟩ := hwrites.goesDown file hfile
  obtain ⟨first, hsteps⟩ := Record.steps_fileName_of_slash hwf hext hbefore
  -- what follows the slash is not empty, since the path does not end in a slash
  have hne : Path.stepsOf after ≠ [] := by
    obtain ⟨front, d, hend⟩ : ∃ front d, '/' :: after = front ++ [d] :=
      (List.eq_nil_or_concat' _).resolve_left (List.cons_ne_nil _ _)
    have hfileName : file.fileName.toList.getLast? = some d := by
      rw [← hname, Record.toList_fileName, hext, hend, ← List.append_assoc, ← List.append_assoc]
      exact List.getLast?_concat
    have hd : d ≠ '/' := by
      rw [HeaderFile.path, Path.endsInSlash_join hfileName] at hslash
      exact beq_eq_false_iff_ne.1 hslash
    have hmem : d ∈ '/' :: after := hend ▸ List.mem_concat_self
    exact Path.stepsOf_ne_nil ((List.mem_cons.1 hmem).resolve_left hd) hd
  have hpath : (file.path directory).steps
      = (Path.ofText directory).steps ++ [.down first] ++ Path.stepsOf after := by
    rw [HeaderFile.path, Path.steps_join, ← hname, hsteps, ← List.append_cons]
  have hend : (file.location cwd directory).getLast? = some last := getLast?_follow hlast _
  rw [hentry, List.getLast?_concat] at hend
  rw [hpath, List.getLast?_append_of_ne_nil _ hne] at hlast
  rw [hlast, Option.some.inj hend]

/-- **One file for each record, or a slash.** In the output of a run that succeeds
there is one file for each record exactly when the extension has no slash, or there
is but one record, whose header is an entry of the directory all the same. -/
theorem oneFileEach_iff (h : compile text options = .ok c)
    (hwrites : Writes cwd directory t c.files t') :
    OneFileEach cwd directory c.files t' ↔
      '/' ∉ options.extension.toList
        ∨ c.files.length ≤ 1 ∧ ∀ file ∈ c.files, ∃ name,
            file.location cwd directory = (Path.ofText directory).location cwd ++ [name] := by
  constructor
  · intro heach
    by_cases hslash : '/' ∈ options.extension.toList
    · obtain ⟨before, after, hext, hbefore⟩ := List.eq_append_cons_of_mem hslash
      refine .inr ⟨?_, heach.entry⟩
      have hentries : ∀ file ∈ c.files, ∀ file' ∈ c.files,
          file.location cwd directory = file'.location cwd directory := by
        intro file hfile file' hfile'
        obtain ⟨name, hname⟩ := heach.entry file hfile
        obtain ⟨name', hname'⟩ := heach.entry file' hfile'
        have hlast := getLast?_of_slash h hwrites hext hbefore hfile hname
        have hlast' := getLast?_of_slash h hwrites hext hbefore hfile' hname'
        obtain rfl : name = name' := Step.down.inj (Option.some.inj (hlast.symm.trans hlast'))
        rw [hname, hname']
      have hapart := heach.apart
      match c.files, hentries, hapart with
      | [], _, _ | [_], _, _ => simp
      | a :: b :: rest, hentries, hapart =>
        have hsame := hentries a (by simp) b (by simp)
        simp [hsame] at hapart
    · exact .inl hslash
  · rintro (hslash | ⟨hlength, hentry⟩)
    · have hapart := nodup_location_of_no_slash h hslash cwd directory
      exact ⟨fun file hfile => ⟨_, location_of_no_slash h hslash hfile cwd directory⟩, hapart,
        hwrites.holds hapart⟩
    · have hapart : (c.files.map (·.location cwd directory)).Nodup := by
        match c.files, hlength with
        | [], _ => exact List.nodup_nil
        | [_], _ => exact List.nodup_singleton _
      exact ⟨hentry, hapart, hwrites.holds hapart⟩

end

/-! ## The output of a run -/

/-- **A run that succeeds writes one file for each record, or there is a slash.** All
that it wrote are the headers of its records; the rest of the tree is as it was, but
for directories. Without a slash in the extension every header is the entry of its
name in the output directory. And the headers are entries of that directory, no two
of them the same one and each with its source, exactly when there is no slash, or
there is but one header, which is an entry of the directory all the same. -/
theorem generateFiles_oneFileEach_iff {s : Session} {input output : String} {options : Options}
    {files : List HeaderFile}
    (h : ((generateFiles input output options).on s).1 = .ok files) :
    let t := ((generateFiles input output options).on s).2.tree
    (∃ c, Admitted s input output options c ∧ c.files = files
        ∧ List.Forall₂ (fun r file => file.OfRecord r options) c.schema.records files)
      ∧ (∀ loc ∉ files.map (·.location s.cwd output), t.get? loc = s.tree.get? loc
          ∨ s.tree.get? loc = none ∧ t.get? loc = some .directory)
      ∧ ('/' ∉ options.extension.toList → ∀ file ∈ files,
          file.location s.cwd output = (Path.ofText output).location s.cwd ++ [file.fileName])
      ∧ (OneFileEach s.cwd output files t ↔
          '/' ∉ options.extension.toList
            ∨ files.length ≤ 1 ∧ ∀ file ∈ files, ∃ name,
                file.location s.cwd output = (Path.ofText output).location s.cwd ++ [name]) := by
  obtain ⟨written, houtcome⟩ := exists_outcome s input output options
  rw [h] at houtcome
  generalize ((generateFiles input output options).on s).2.tree = t at houtcome
  have hadds : ∀ loc ∉ written.map _, _ := fun loc hloc => houtcome.adds hloc
  cases houtcome with
  | @finished c made t hadmitted hmade hwrites =>
    obtain ⟨text, -, hcompile⟩ := hadmitted.compiles
    exact ⟨⟨c, hadmitted, rfl, compiled_files hcompile⟩,
      fun loc hloc => (hadds loc hloc).imp_right And.right,
      fun hslash file hfile => location_of_no_slash hcompile hslash hfile s.cwd output,
      oneFileEach_iff hcompile hwrites⟩

/-- A session in the root directory, with a schema in the file `in` and some
directories. -/
def Session.withSchema (text : String) (directories : List Location) : Session where
  tree := ⟨(["in"], .file text.toUTF8) :: directories.map (·, .directory)⟩
  cwd := []
  log := []

/-- Two records, and an output directory that has to be made. -/
theorem generateFiles_two_records :
    ∃ files, ((generateFiles "in" "a/b" {}).on
          (.withSchema "A:\n  x u8\n\nB:\n  y u8\n" [])).1 = .ok files
      ∧ OneFileEach [] "a/b" files ((generateFiles "in" "a/b" {}).on
          (.withSchema "A:\n  x u8\n\nB:\n  y u8\n" [])).2.tree := by
  obtain ⟨files, hfiles, -⟩ : ∃ files, ((generateFiles "in" "a/b" {}).on
      (.withSchema "A:\n  x u8\n\nB:\n  y u8\n" [])).1 = .ok files ∧ True :=
    exists_eq_ok (by decide +kernel)
  obtain ⟨-, -, -, hiff⟩ := generateFiles_oneFileEach_iff hfiles
  exact ⟨files, hfiles, hiff.2 (.inl (by decide))⟩

/-- With directories named like the records, an extension can lead both headers to
one place, where the second takes the place of the first. -/
theorem generateFiles_slash_overwrites :
    ∃ files, ((generateFiles "in" "out" { extension := "/../x" }).on
          (.withSchema "A:\n  x u8\n\nB:\n  y u8\n"
            [["out"], ["out", "A"], ["out", "B"]])).1 = .ok files
      ∧ ¬ OneFileEach [] "out" files ((generateFiles "in" "out" { extension := "/../x" }).on
          (.withSchema "A:\n  x u8\n\nB:\n  y u8\n"
            [["out"], ["out", "A"], ["out", "B"]])).2.tree := by
  obtain ⟨files, hfiles, hsame⟩ : ∃ files,
      ((generateFiles "in" "out" { extension := "/../x" }).on
          (.withSchema "A:\n  x u8\n\nB:\n  y u8\n"
            [["out"], ["out", "A"], ["out", "B"]])).1 = .ok files
        ∧ ¬ (files.map (·.location [] "out")).Nodup :=
    exists_eq_ok (by decide +kernel)
  exact ⟨files, hfiles, fun heach => hsame heach.apart⟩

end FlatRecord
