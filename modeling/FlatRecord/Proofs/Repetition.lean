import FlatRecord.Proofs.OutputFiles

/-!
# Running again

A run leaves behind a tree that differs from the one it found: there may be new
directories, and there are files that were not there or held something else. None of
this stands in the way of the same run. What was a directory is one still and what was a
file is one still (`FileTree.Grown`), so every path that led somewhere leads there, and
an operation that went well goes well again. All it finds is done already: the directory
is there, and the files, once all of them are written, hold what they held before.

So a second run reads the same schema, unless the first one has written over it, and
ends as the first one did. If that was at a file which could not be written, it cannot
be written now (`generateFiles_again`).
-/

namespace FlatRecord

namespace FileTree

variable {t t' u : FileTree} {cwd loc : Location} {p : Path}

/-! ## Grown trees -/

/-- **A tree grown out of another**: directories and files of the one are so in the
other, whatever the files hold. -/
structure Grown (t t' : FileTree) : Prop where
  /-- Directories stay directories. -/
  directory : ∀ {loc}, t.get? loc = some .directory → t'.get? loc = some .directory
  /-- Files stay files. -/
  file : ∀ {loc content}, t.get? loc = some (.file content) →
    ∃ content', t'.get? loc = some (.file content')

namespace Grown

theorem refl (t : FileTree) : Grown t t := ⟨id, fun h => ⟨_, h⟩⟩

theorem trans (h : Grown t t') (h' : Grown t' u) : Grown t u := by
  refine ⟨fun hloc => h'.directory (h.directory hloc), fun hloc => ?_⟩
  obtain ⟨content, hcontent⟩ := h.file hloc
  exact h'.file hcontent

/-- Adding directories makes a tree grow. -/
theorem of_adds {locations : List Location} (h : AddsDirectories locations t t') : Grown t t' :=
  ⟨h.get?_of_some, fun hloc => ⟨_, h.get?_of_some hloc⟩⟩

/-- So does putting a file where there is no directory. -/
theorem put_file (hloc : loc ≠ []) (h : t.get? loc ≠ some .directory) (content : ByteArray) :
    Grown t (t.put loc (.file content)) := by
  constructor
  · intro l hl
    have hne : l ≠ loc := fun heq => h (by rw [← heq, hl])
    rwa [get?_put_of_ne t hne]
  · intro l content' hl
    by_cases heq : l = loc
    · subst heq
      exact ⟨content, get?_put_self t hloc _⟩
    · exact ⟨content', by rwa [get?_put_of_ne t heq]⟩

/-- What is found in a directory is found there still, whatever it is. -/
theorem look (h : Grown t t') {name : String} {entry : Entry}
    (hlook : t.look loc name = .ok (some entry)) :
    ∃ entry', t'.look loc name = .ok (some entry') := by
  obtain ⟨hname, hentry⟩ := look_eq_ok_iff.1 hlook
  cases entry with
  | directory => exact ⟨_, look_eq_ok_iff.2 ⟨hname, h.directory hentry⟩⟩
  | file content =>
    obtain ⟨content', hcontent⟩ := h.file hentry
    exact ⟨_, look_eq_ok_iff.2 ⟨hname, hcontent⟩⟩

/-- Steps that lead somewhere lead there still. -/
theorem walk (h : Grown t t') {steps : List Step} {loc' : Location}
    (hwalk : t.walk loc steps = .ok loc') : t'.walk loc steps = .ok loc' := by
  induction steps generalizing loc with
  | nil => exact hwalk
  | cons step rest ih =>
    obtain ⟨hdirectory, hentry, hrest⟩ := walk_cons_eq_ok_iff.1 hwalk
    refine walk_cons_eq_ok_iff.2 ⟨h.directory hdirectory, fun name hname => ?_, ih hrest⟩
    obtain ⟨entry, hlook⟩ := hentry name hname
    exact h.look hlook

/-- A path to an entry leads to what has become of it. -/
theorem entryAt (h : Grown t t') {entry entry' : Entry} (hentry : t.entryAt cwd p = .ok entry)
    (hget : t'.get? (p.location cwd) = some entry') : t'.entryAt cwd p = .ok entry' := by
  obtain ⟨hfault, hwalk, hentry, hslash⟩ := entryAt_eq_ok_iff.1 hentry
  refine entryAt_eq_ok_iff.2 ⟨hfault, h.walk hwalk, hget, fun hends => ?_⟩
  rw [hslash hends] at hentry
  exact Option.some.inj (hget.symm.trans (h.directory hentry))

theorem parentAt (h : Grown t t') {last : Option Step}
    (hparent : t.parentAt cwd p = .ok (loc, last)) :
    t'.parentAt cwd p = .ok (loc, last) := by
  obtain ⟨hfault, hwalk, hdirectory, hlast⟩ := parentAt_eq_ok_iff.1 hparent
  exact parentAt_eq_ok_iff.2 ⟨hfault, h.walk hwalk, h.directory hdirectory, hlast⟩

theorem isDirectory (h : Grown t t') (hdirectory : t.isDirectory cwd p = true) :
    t'.isDirectory cwd p = true := by
  rw [isDirectory_iff] at hdirectory ⊢
  exact h.entryAt hdirectory (h.directory (entryAt_eq_ok hdirectory).2.2)

/-- **A file that was written can be written again**, and it is there already. -/
theorem writeFile {content : ByteArray} (h : Grown t' u)
    (hfile : t.writeFile cwd p content = .ok t') :
    u.writeFile cwd p content = .ok (u.put (p.location cwd) (.file content))
      ∧ ∃ content', u.get? (p.location cwd) = some (.file content') := by
  obtain ⟨-, -, hdirectory, hloc, hput⟩ := writeFile_eq_ok hfile
  obtain ⟨hslash, loc, name, hparent, ⟨entry, hlook, -⟩, -⟩ := writeFile_eq_ok_iff.1 hfile
  have hgrown : Grown t u := (hput ▸ put_file hloc hdirectory content).trans h
  obtain ⟨content', hcontent⟩ := h.file (hput ▸ get?_put_self t hloc (.file content))
  refine ⟨writeFile_eq_ok_iff.2 ?_, content', hcontent⟩
  rw [(parentAt_eq_ok hparent).2.2] at hcontent ⊢
  exact ⟨hslash, loc, name, hgrown.parentAt hparent,
    ⟨_, look_eq_ok_iff.2 ⟨(look_eq_ok_iff.1 hlook).1, hcontent⟩, nofun⟩, rfl⟩

end Grown

/-! ## Directories that are there -/

/-- A directory that was made is there. -/
theorem isDirectory_of_makeDir (h : t.makeDir cwd p = .ok t') : t'.isDirectory cwd p = true := by
  have hgrown : Grown t t' := .of_adds (addsDirectories_makeDir h)
  obtain ⟨-, -, -, hloc, hput⟩ := makeDir_eq_ok h
  have hthere : t'.get? (p.location cwd) = some .directory := hput ▸ get?_put_self t hloc _
  obtain ⟨loc, name, hparent, hlook, -⟩ := makeDir_eq_ok_iff.1 h
  obtain ⟨hfault, hwalk, hdirectory, hlast⟩ := parentAt_eq_ok_iff.1 hparent
  have hlocation := (parentAt_eq_ok hparent).2.2
  have hstep : t'.walk loc [.down name] = .ok (p.location cwd) := by
    refine walk_cons_eq_ok_iff.2 ⟨hgrown.directory hdirectory, ?_, congrArg _ hlocation.symm⟩
    rintro _ ⟨⟩
    exact ⟨_, look_eq_ok_iff.2 ⟨(look_eq_ok_iff.1 hlook).1, hlocation ▸ hthere⟩⟩
  refine isDirectory_iff.2 (entryAt_eq_ok_iff.2 ⟨hfault, ?_, hthere, fun _ => rfl⟩)
  rw [← List.dropLast_append_getLast? _ hlast]
  exact walk_append_eq_ok_iff.2 ⟨loc, hgrown.walk hwalk, hstep⟩

/-- Where there is a directory none is made. -/
theorem makeDir_of_isDirectory (h : t.isDirectory cwd p = true) :
    t.makeDir cwd p = .error (.os .alreadyExists) := by
  obtain ⟨hfault, hwalk, hdirectory, -⟩ := entryAt_eq_ok_iff.1 (isDirectory_iff.1 h)
  rcases List.eq_nil_or_concat' p.steps with hsteps | ⟨before, last, hsteps⟩
  · rw [hsteps] at hwalk
    have hparent : t.parentAt cwd p = .ok (p.location cwd, none) :=
      parentAt_eq_ok_iff.2 ⟨hfault, by rw [hsteps]; exact hwalk, hdirectory, by rw [hsteps]; rfl⟩
    unfold makeDir
    rw [hparent]
    rfl
  · rw [hsteps] at hwalk
    obtain ⟨around, hbefore, hlast⟩ := walk_append_eq_ok_iff.1 hwalk
    obtain ⟨haround, hentry, -⟩ := walk_cons_eq_ok_iff.1 hlast
    have hparent : t.parentAt cwd p = .ok (around, some last) :=
      parentAt_eq_ok_iff.2 ⟨hfault, by rw [hsteps, List.dropLast_concat]; exact hbefore, haround,
        by rw [hsteps, List.getLast?_concat]⟩
    unfold makeDir
    rw [hparent]
    cases last with
    | stay | up => rfl
    | down name =>
      obtain ⟨entry, hlook⟩ := hentry name rfl
      show (t.look around name >>= _) = _
      rw [hlook]
      rfl

theorem isDirectory_of_run_ensureDir (h : (ensureDir cwd p).run t = .ok () t') :
    t'.isDirectory cwd p = true := by
  rw [run_ensureDir] at h
  split at h
  · rename_i hmade
    cases h
    exact isDirectory_of_makeDir hmade
  · split at h
    · rename_i hthere
      cases h
      exact (Bool.and_eq_true_iff.1 hthere).2
    · cases h

/-- Where directories were made, there is one at the path, unless it is empty. -/
theorem isDirectory_of_run_makeDirs (h : (makeDirs cwd p).run t = .ok () t') :
    p.text.isEmpty = true ∨ t'.isDirectory cwd p = true := by
  unfold makeDirs at h
  split at h
  · rename_i hempty
    exact .inl hempty
  · refine .inr ?_
    rcases run_ensureDirAfter cwd p _ t with hrun | hrun
    · exact isDirectory_of_run_ensureDir (hrun ▸ h)
    · rw [hrun, EStateM.run_bind] at h
      split at h
      · exact isDirectory_of_run_ensureDir h
      · cases h

/-- Where there is a directory, or none is asked for, no directories are made. -/
theorem run_makeDirs_of_isDirectory (h : p.text.isEmpty = true ∨ t.isDirectory cwd p = true) :
    (makeDirs cwd p).run t = .ok () t := by
  unfold makeDirs
  split
  · rfl
  · rename_i hempty
    have hdirectory := h.resolve_left hempty
    have hmade := makeDir_of_isDirectory hdirectory
    have hensured : (ensureDir cwd p).run t = .ok () t := by
      rw [run_ensureDir, hmade]
      exact if_pos (Bool.and_eq_true_iff.2 ⟨decide_eq_true rfl, hdirectory⟩)
    unfold ensureDirAfter
    rw [EStateM.run_bind, EStateM.run_get]
    dsimp only
    rw [hmade]
    exact hensured

/-- **Directories that were made need not be made again**, in that tree or one grown
out of it. -/
theorem Grown.run_makeDirs (h : Grown t' u) (hmade : (makeDirs cwd p).run t = .ok () t') :
    (makeDirs cwd p).run u = .ok () u :=
  run_makeDirs_of_isDirectory ((isDirectory_of_run_makeDirs hmade).imp_right h.isDirectory)

/-! ## Putting again -/

theorem putAt_putAt_self (loc : Location) (e e' : Entry) (entries : List (Location × Entry)) :
    putAt loc e (putAt loc e' entries) = putAt loc e entries := by
  induction entries with
  | nil => simp [putAt]
  | cons x rest ih =>
    by_cases h : x.1 = loc
    · simp [putAt, h]
    · simp [putAt, h, ih]

/-- Entries are put in any order, as long as none is put behind the others for one
that was not there. -/
theorem putAt_comm {loc loc' : Location} (hne : loc ≠ loc') (e e' : Entry)
    {entries : List (Location × Entry)} (h : (entries.lookup loc).isSome = true) :
    putAt loc' e' (putAt loc e entries) = putAt loc e (putAt loc' e' entries) := by
  induction entries with
  | nil => cases h
  | cons x rest ih =>
    by_cases hloc : x.1 = loc
    · have hloc' : x.1 ≠ loc' := hloc ▸ hne
      simp [putAt, hloc, hne]
    · have hbeq : (loc == x.1) = false := by simpa using Ne.symm hloc
      rw [List.lookup_cons, hbeq] at h
      by_cases hloc' : x.1 = loc'
      · simp [putAt, hloc', Ne.symm hne]
      · simp [putAt, hloc, hloc', ih h]

/-- What is put last stays. -/
theorem put_put_self (t : FileTree) (loc : Location) (e e' : Entry) :
    (t.put loc e').put loc e = t.put loc e :=
  congrArg FileTree.mk (putAt_putAt_self loc e e' t.entries)

theorem put_comm {loc' : Location} (hloc : loc ≠ []) (hne : loc ≠ loc') (e e' : Entry)
    (h : (t.get? loc).isSome = true) :
    (t.put loc e).put loc' e' = (t.put loc' e').put loc e := by
  rw [get?_of_ne_nil t hloc] at h
  exact congrArg FileTree.mk (putAt_comm hne e e' h)

end FileTree

/-- The tree with headers put into a directory, one after the other. -/
def FileTree.putAll (cwd : Location) (directory : String) (t : FileTree)
    (files : List HeaderFile) : FileTree :=
  files.foldl (fun t file => t.put (file.location cwd directory) (.file file.source.toUTF8)) t

section

variable {cwd : Location} {directory : String} {t t' u : FileTree} {files : List HeaderFile}

theorem FileTree.get?_putAll_of_not_mem {loc : Location}
    (hloc : loc ∉ files.map (·.location cwd directory)) :
    (t.putAll cwd directory files).get? loc = t.get? loc := by
  induction files generalizing t with
  | nil => rfl
  | cons file rest ih =>
    rw [List.map_cons, List.mem_cons, not_or] at hloc
    exact (ih hloc.2).trans (get?_put_of_ne t hloc.1 _)

/-- What is there is not removed. -/
theorem FileTree.isSome_get?_putAll {loc : Location} (h : (t.get? loc).isSome = true) :
    ((t.putAll cwd directory files).get? loc).isSome = true := by
  induction files generalizing t with
  | nil => exact h
  | cons file rest ih =>
    refine ih (t := t.put (file.location cwd directory) (.file file.source.toUTF8)) ?_
    by_cases hloc : loc = []
    · subst hloc
      rfl
    · by_cases heq : loc = file.location cwd directory
      · rw [← heq, get?_put_self t hloc]
        rfl
      · rwa [get?_put_of_ne t heq]

/-- What is put where a header will go is lost, when something was there before. -/
theorem FileTree.putAll_put_of_mem {loc : Location} (hloc : loc ≠ [])
    (hthere : (t.get? loc).isSome = true) (hmem : loc ∈ files.map (·.location cwd directory))
    (e : Entry) : (t.put loc e).putAll cwd directory files = t.putAll cwd directory files := by
  induction files generalizing t with
  | nil => cases hmem
  | cons file rest ih =>
    show ((t.put loc e).put _ _).putAll cwd directory rest = (t.put _ _).putAll cwd directory rest
    by_cases heq : loc = file.location cwd directory
    · rw [heq, put_put_self]
    · rw [put_comm hloc heq e _ hthere]
      refine ih ?_ ((List.mem_cons.1 hmem).resolve_left heq)
      rwa [get?_put_of_ne t heq]

/-- **Headers that are put again change nothing.** -/
theorem FileTree.putAll_putAll (h : ∀ file ∈ files, file.location cwd directory ≠ []) :
    (t.putAll cwd directory files).putAll cwd directory files
      = t.putAll cwd directory files := by
  induction files generalizing t with
  | nil => rfl
  | cons file rest ih =>
    have hloc := h file List.mem_cons_self
    specialize ih (t := t.put (file.location cwd directory) (.file file.source.toUTF8))
      fun other hother => h other (List.mem_cons_of_mem _ hother)
    change ((FileTree.putAll cwd directory _ rest).put _ _).putAll cwd directory rest
      = FileTree.putAll cwd directory _ rest
    by_cases hmem : file.location cwd directory ∈ rest.map (·.location cwd directory)
    · -- it goes where one of the others does, and that one counts
      have hthere := Option.isSome_of_eq_some (get?_put_self t hloc (.file file.source.toUTF8))
      rw [putAll_put_of_mem hloc (isSome_get?_putAll hthere) hmem, ih]
    · rw [put_of_get? hloc (by rw [get?_putAll_of_not_mem hmem, get?_put_self t hloc]), ih]

/-! ## Writing again -/

/-- Writing headers makes a tree grow. -/
theorem Writes.grown (h : Writes cwd directory t files t') : t.Grown t' := by
  induction h with
  | nil => exact .refl _
  | cons hfile _ ih =>
    obtain ⟨-, -, hdirectory, hloc, -⟩ := FileTree.writeFile_eq_ok hfile
    exact (FileTree.Grown.put_file hloc hdirectory _).trans ih

theorem Writes.location_ne_nil (h : Writes cwd directory t files t') :
    ∀ file ∈ files, file.location cwd directory ≠ [] := by
  induction h with
  | nil => exact nofun
  | cons hfile _ ih =>
    intro other hother
    rcases List.mem_cons.1 hother with rfl | hother
    · obtain ⟨-, -, -, hloc, -⟩ := FileTree.writeFile_eq_ok hfile
      exact hloc
    · exact ih other hother

theorem Writes.eq_putAll (h : Writes cwd directory t files t') :
    t' = t.putAll cwd directory files := by
  induction h with
  | nil => rfl
  | cons _ _ ih => exact ih

/-- In a tree grown out of that with the headers they can be written. -/
theorem Writes.on_grown (h : Writes cwd directory t files t') (hgrown : t'.Grown u) :
    Writes cwd directory u files (u.putAll cwd directory files) := by
  induction h generalizing u with
  | nil => exact .nil
  | @cons t t' file rest hfile hrest ih =>
    obtain ⟨hagain, content, hcontent⟩ := (hrest.grown.trans hgrown).writeFile hfile
    obtain ⟨-, -, -, hloc, -⟩ := FileTree.writeFile_eq_ok hfile
    refine .cons hagain (ih (hgrown.trans (.put_file hloc ?_ _)))
    show u.get? ((file.path directory).location cwd) ≠ _
    rw [hcontent]
    exact nofun

/-- **Headers that were written are written again, and nothing changes.** -/
theorem Writes.again (h : Writes cwd directory t files t') :
    Writes cwd directory t' files t' := by
  have hagain := h.on_grown (.refl t')
  rwa [h.eq_putAll, FileTree.putAll_putAll h.location_ne_nil, ← h.eq_putAll] at hagain

/-- After headers that can be written come the others. -/
theorem Writes.on_writeFiles (h : Writes cwd directory t files t') (rest : List HeaderFile)
    {s : Session} (htree : s.tree = t) (hcwd : s.cwd = cwd) :
    ∃ s', s'.tree = t' ∧ s'.cwd = cwd
      ∧ (writeFiles directory (files ++ rest)).on s
        = (((writeFiles directory rest).on s').1.map
            (files.map (fun file => Path.join directory file.fileName) ++ ·),
          ((writeFiles directory rest).on s').2) := by
  induction h generalizing s with
  | nil =>
    refine ⟨s, htree, hcwd, ?_⟩
    show (writeFiles directory rest).on s = _
    cases hresult : (writeFiles directory rest).on s with
    | mk result s' => cases result <;> rfl
  | @cons t t' file others hfile _ ih =>
    subst htree hcwd
    obtain ⟨s₁, htree, hcwd, hfirst⟩ := on_writeFiles_of_ok hfile (others ++ rest)
    obtain ⟨s', htree', hcwd', hothers⟩ := ih htree hcwd
    refine ⟨s', htree', hcwd', ?_⟩
    rw [List.cons_append, hfirst, hothers]
    cases ((writeFiles directory rest).on s').1 <;> rfl

end

/-! ## A second run -/

section

variable {s : Session} {input output : String} {options : Options} {c : Compilation}
  {made t : FileTree}

/-- Neither a directory nor the empty path is a file. -/
theorem isFile_eq_false_of_isDirectory {cwd : Location} {p : Path}
    (h : p.text.isEmpty = true ∨ t.isDirectory cwd p = true) : t.isFile cwd p = false := by
  rw [Bool.eq_false_iff]
  intro hfile
  obtain ⟨content, hcontent⟩ := FileTree.isFile_iff.1 hfile
  rw [FileTree.readFile_eq_ok_iff] at hcontent
  rcases h with hempty | hdirectory
  · rw [(FileTree.entryAt_eq_ok hcontent).1] at hempty
    cases hempty
  · rw [FileTree.isDirectory_iff, hcontent] at hdirectory
    cases hdirectory

/-- **A run that came to its writing comes there again**, if what stands at its input
is what stood there. -/
theorem Admitted.again (h : Admitted s input output options c)
    (hdirs : (FileTree.makeDirs s.cwd (.ofText output)).run s.tree = .ok () made)
    (hgrown : made.Grown t)
    (hinput : t.get? ((Path.ofText input).location s.cwd)
      = s.tree.get? ((Path.ofText input).location s.cwd)) (log : List Event) :
    Admitted ⟨t, s.cwd, log⟩ input output options c := by
  have hmade := FileTree.run_makeDirs s.cwd (.ofText output) s.tree
  rw [hdirs] at hmade
  refine ⟨h.scope, ?_, ?_⟩
  · exact isFile_eq_false_of_isDirectory
      ((FileTree.isDirectory_of_run_makeDirs hdirs).imp_right hgrown.isDirectory)
  · obtain ⟨text, ⟨content, hread, htext⟩, hcompile⟩ := h.compiles
    have hentry := FileTree.readFile_eq_ok_iff.1 hread
    refine ⟨text, ⟨content, FileTree.readFile_eq_ok_iff.2 ?_, htext⟩, hcompile⟩
    exact ((FileTree.Grown.of_adds hmade.adds).trans hgrown).entryAt hentry
      (hinput.trans (FileTree.entryAt_eq_ok hentry).2.2)

/-- A second run writes again what the first one wrote, and goes on where that ended. -/
theorem on_generateFiles_again {before rest : List HeaderFile}
    (h : Admitted s input output options c)
    (hdirs : (FileTree.makeDirs s.cwd (.ofText output)).run s.tree = .ok () made)
    (hfiles : c.files = before ++ rest) (hwrites : Writes s.cwd output made before t)
    (hinput : t.get? ((Path.ofText input).location s.cwd)
      = s.tree.get? ((Path.ofText input).location s.cwd)) (log : List Event) :
    ∃ s', s'.tree = t ∧ s'.cwd = s.cwd
      ∧ (generateFiles input output options).on ⟨t, s.cwd, log⟩
        = (((writeFiles output rest).on s').1.map fun _ => c.files,
          ((writeFiles output rest).on s').2) := by
  obtain ⟨events, hrun⟩ :=
    on_generateFiles_of_admitted (h.again hdirs hwrites.grown hinput log)
  obtain ⟨s₁, htree, hcwd, hwrite⟩ := on_writeGenerated_of_ok
    (s := Session.logged ⟨t, s.cwd, log⟩ events) (hwrites.grown.run_makeDirs hdirs) c.files
  obtain ⟨s', htree', hcwd', hon⟩ := hwrites.again.on_writeFiles rest htree hcwd
  refine ⟨s', htree', hcwd', ?_⟩
  rw [hrun, Run.on_bind, hwrite, hfiles, hon]
  cases ((writeFiles output rest).on s').1 <;> rfl

/-- A run that wrote no header over its input leaves there what it read. -/
theorem Outcome.get?_input {result : Except Failure (List HeaderFile)}
    {written : List HeaderFile} (h : Outcome s input output options result written t)
    (hadmitted : Admitted s input output options c)
    (hinput : (Path.ofText input).location s.cwd ∉ written.map (·.location s.cwd output)) :
    t.get? ((Path.ofText input).location s.cwd)
      = s.tree.get? ((Path.ofText input).location s.cwd) := by
  rcases h.adds hinput with hkept | ⟨-, hnone, -⟩
  · exact hkept
  · obtain ⟨text, ⟨content, hread, -⟩, -⟩ := hadmitted.compiles
    have hthere := (FileTree.entryAt_eq_ok (FileTree.readFile_eq_ok_iff.1 hread)).2.2
    cases hnone.symm.trans hthere

theorem not_refused_fileNotWritten {path : String} {e : IoError} :
    ¬ Refused s input output options (.fileNotWritten path e) := by
  rintro (_ | ⟨-, h⟩)
  cases h

/-- **Of a run that came to its files the second is a copy**: it has the same result
and leaves the same tree. -/
theorem ends_again {written : List HeaderFile} (log : List Event) :
    let first := (generateFiles input output options).on s
    let second := (generateFiles input output options).on ⟨first.2.tree, s.cwd, log⟩
    Outcome s input output options first.1 written first.2.tree →
      (Path.ofText input).location s.cwd ∉ written.map (·.location s.cwd output) →
      (∃ failure, Refused s input output options failure ∧ first.1 = .error failure)
        ∨ (∃ e, first.1 = .error (.io e))
        ∨ second.1 = first.1 ∧ second.2.tree = first.2.tree := by
  intro first second houtcome hinput
  rcases refused_or_admitted s input output options with ⟨failure, h⟩ | ⟨c, h⟩
  · obtain ⟨events, hrun⟩ := on_generateFiles_of_refused h
    exact .inl ⟨failure, h, congrArg Prod.fst hrun⟩
  · refine .inr ?_
    have hkept := houtcome.get?_input h hinput
    obtain ⟨s₁, ⟨e, -, hrun⟩ | ⟨made, hdirs, hends⟩⟩ := h.ends
    · exact .inl ⟨e, congrArg Prod.fst hrun⟩
    · refine .inr ?_
      rcases hends with ⟨hwrites, hrun⟩ | ⟨before, file, after, e, hfiles, hwrites, hfile, hrun⟩
      · change first = _ at hrun
        rw [hrun] at hkept
        obtain ⟨s₂, htree, -, hon⟩ := on_generateFiles_again h hdirs
          (List.append_nil _).symm hwrites hkept log
        simp only [second, hrun]
        rw [hon]
        exact ⟨rfl, htree⟩
      · change first = _ at hrun
        rw [hrun] at hkept
        obtain ⟨s₂, htree, hcwd, hon⟩ := on_generateFiles_again h hdirs hfiles hwrites hkept log
        rw [← htree, ← hcwd] at hfile
        simp only [second, hrun]
        rw [hon, on_writeFiles_of_error hfile]
        exact ⟨rfl, htree⟩

end

/-- **Running again changes nothing.** After a run that succeeds, and wrote no header
over its input, the same run on the tree it leaves succeeds with the same headers and
leaves that tree as it is. After one that could not write a file, the same run fails at
that file for the same reason, and leaves the tree as it is too. -/
theorem generateFiles_again (s : Session) (input output : String) (options : Options)
    (log : List Event) :
    let first := (generateFiles input output options).on s
    let second := (generateFiles input output options).on ⟨first.2.tree, s.cwd, log⟩
    (∀ files, first.1 = .ok files →
        (Path.ofText input).location s.cwd ∉ files.map (·.location s.cwd output) →
        second.1 = .ok files ∧ second.2.tree = first.2.tree)
      ∧ ∀ path e written, first.1 = .error (.fileNotWritten path e) →
        Outcome s input output options first.1 written first.2.tree →
        (Path.ofText input).location s.cwd ∉ written.map (·.location s.cwd output) →
        second.1 = .error (.fileNotWritten path e) ∧ second.2.tree = first.2.tree := by
  intro first second
  constructor
  · intro files hfirst hinput
    obtain ⟨written, houtcome⟩ := exists_outcome s input output options
    obtain rfl : written = files := by
      change Outcome _ _ _ _ first.1 _ _ at houtcome
      rw [hfirst] at houtcome
      cases houtcome
      rfl
    rcases ends_again log houtcome hinput with
      ⟨_, -, hfails⟩ | ⟨_, hfails⟩ | ⟨hresult, htree⟩
    · cases hfirst.symm.trans hfails
    · cases hfirst.symm.trans hfails
    · exact ⟨hresult.trans hfirst, htree⟩
  · intro path e written hfirst houtcome hinput
    rcases ends_again log houtcome hinput with
      ⟨_, hrefused, hfails⟩ | ⟨_, hfails⟩ | ⟨hresult, htree⟩
    · cases hfirst.symm.trans hfails
      exact absurd hrefused not_refused_fileNotWritten
    · cases hfirst.symm.trans hfails
    · exact ⟨hresult.trans hfirst, htree⟩

/-- Headers written to `out` are below it. -/
theorem ne_location_of_withSchema {text : String} {directories : List Location}
    {result : Except Failure (List HeaderFile)} {written : List HeaderFile} {t : FileTree}
    (h : Outcome (.withSchema text directories) "in" "out" {} result written t) :
    (Path.ofText "in").location [] ∉ written.map (·.location [] "out") := by
  have hbelow : ∀ c, Admitted (.withSchema text directories) "in" "out" {} c → ∀ file ∈ c.files,
      file.location [] "out" ≠ (Path.ofText "in").location [] := by
    intro c hadmitted file hfile heq
    obtain ⟨_, -, hcompile⟩ := hadmitted.compiles
    rw [location_of_no_slash hcompile (by decide) hfile,
      show (Path.ofText "out").location [] = ["out"] by decide +kernel,
      show (Path.ofText "in").location [] = ["in"] by decide +kernel] at heq
    cases (List.cons.inj heq).2
  intro hmem
  obtain ⟨file, hfile, heq⟩ := List.mem_map.1 hmem
  cases h with
  | refused _ | noDirectory _ _ _ => cases hfile
  | stopped hadmitted _ hfiles _ _ =>
    exact hbelow _ hadmitted file (hfiles ▸ List.mem_append_left _ hfile) heq
  | finished hadmitted _ _ => exact hbelow _ hadmitted file hfile heq

/-- A session with a schema of two records and some directories. -/
def Session.withTwoRecords (directories : List Location) : Session :=
  .withSchema "A:\n  x u8\n\nB:\n  y u8\n" directories

theorem cwd_withTwoRecords (directories : List Location) :
    (Session.withTwoRecords directories).cwd = [] := rfl

/-- Two records, once with room for both headers and once with a directory in the place
of the second. -/
theorem generateFiles_again_two_records :
    (∃ files, ((generateFiles "in" "out" {}).on (.withTwoRecords [])).1 = .ok files
        ∧ ((generateFiles "in" "out" {}).on
            ⟨((generateFiles "in" "out" {}).on (.withTwoRecords [])).2.tree, [], []⟩).1 = .ok files
        ∧ ((generateFiles "in" "out" {}).on
            ⟨((generateFiles "in" "out" {}).on (.withTwoRecords [])).2.tree, [], []⟩).2.tree
          = ((generateFiles "in" "out" {}).on (.withTwoRecords [])).2.tree)
      ∧ ∃ path e, ((generateFiles "in" "out" {}).on
            (.withTwoRecords [["out"], ["out", "B.gen.hpp"]])).1 = .error (.fileNotWritten path e)
        ∧ ((generateFiles "in" "out" {}).on ⟨((generateFiles "in" "out" {}).on
              (.withTwoRecords [["out"], ["out", "B.gen.hpp"]])).2.tree, [], []⟩).1
          = .error (.fileNotWritten path e)
        ∧ ((generateFiles "in" "out" {}).on ⟨((generateFiles "in" "out" {}).on
              (.withTwoRecords [["out"], ["out", "B.gen.hpp"]])).2.tree, [], []⟩).2.tree
          = ((generateFiles "in" "out" {}).on
              (.withTwoRecords [["out"], ["out", "B.gen.hpp"]])).2.tree := by
  constructor
  · obtain ⟨files, hfiles, hinput⟩ : ∃ files,
        ((generateFiles "in" "out" {}).on (.withTwoRecords [])).1 = .ok files
          ∧ (Path.ofText "in").location [] ∉ files.map (·.location [] "out") :=
      exists_eq_ok (by decide +kernel)
    have hagain := (generateFiles_again (.withTwoRecords []) "in" "out" {} []).1 files hfiles hinput
    rw [cwd_withTwoRecords] at hagain
    exact ⟨files, hfiles, hagain⟩
  · have hfails : ((generateFiles "in" "out" {}).on
          (.withTwoRecords [["out"], ["out", "B.gen.hpp"]])).1
        = .error (.fileNotWritten "out/B.gen.hpp" (.os .isDirectory)) := by decide +kernel
    obtain ⟨written, houtcome⟩ :=
      exists_outcome (.withTwoRecords [["out"], ["out", "B.gen.hpp"]]) "in" "out" {}
    have hagain := (generateFiles_again (.withTwoRecords [["out"], ["out", "B.gen.hpp"]])
      "in" "out" {} []).2 _ _ written hfails houtcome (ne_location_of_withSchema houtcome)
    rw [cwd_withTwoRecords] at hagain
    exact ⟨_, _, hfails, hagain⟩

end FlatRecord
