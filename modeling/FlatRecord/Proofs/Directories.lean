import FlatRecord.FileTree
import FlatRecord.Proofs.FieldReading
import Mathlib.Data.List.Infix

/-!
# What file operations change

A path has a location whether there is anything at it or not: its steps say
where they lead. An operation that succeeds has walked them, so every directory
on the way was there, and it puts one entry at the location of its path and
nothing else.

Making a directory with those around it goes down the path and up again, and can
stop anywhere. Still, all it ever does is to put directories where nothing was,
at the locations that the path leads through, and when it succeeds each of these
has a directory (`FileTree.run_makeDirs`).
-/

namespace FlatRecord

/-! ## Where steps lead -/

/-- Where a step leads. -/
def Step.lead (loc : Location) : Step → Location
  | .stay => loc
  | .up => loc.dropLast
  | .down name => loc ++ [name]

/-- Where steps lead, one after the other. -/
def follow (loc : Location) (steps : List Step) : Location := steps.foldl Step.lead loc

theorem follow_append (loc : Location) (steps steps' : List Step) :
    follow loc (steps ++ steps') = follow (follow loc steps) steps' :=
  List.foldl_append

/-- Where the last of some steps goes down, its name comes last. -/
theorem getLast?_follow {steps : List Step} {name : String}
    (h : steps.getLast? = some (.down name)) (loc : Location) :
    (follow loc steps).getLast? = some name := by
  obtain ⟨before, rfl⟩ := List.getLast?_eq_some_iff.1 h
  rw [follow_append]
  exact List.getLast?_concat

/-- Steps that stay where they are can be left out. -/
theorem follow_filter (loc : Location) (steps : List Step) :
    follow loc (steps.filter (· != .stay)) = follow loc steps := by
  induction steps generalizing loc with
  | nil => rfl
  | cons step rest ih =>
    cases step with
    | stay => exact ih loc
    | up => exact ih loc.dropLast
    | down name => exact ih (loc ++ [name])

namespace Path

/-- The location a path leads to. -/
def location (cwd : Location) (p : Path) : Location := follow (FileTree.start cwd p) p.steps

/-- **The locations a path leads through**: where it begins, where each of its
steps leads, and so its own location. The empty path leads through none. -/
def trail (cwd : Location) (p : Path) : List Location :=
  if p.text.isEmpty then [] else p.steps.inits.map (follow (FileTree.start cwd p))

theorem mem_trail_iff {cwd : Location} {p : Path} (h : p.text.isEmpty = false) (loc : Location) :
    loc ∈ p.trail cwd ↔ ∃ steps, steps <+: p.steps ∧ follow (FileTree.start cwd p) steps = loc := by
  unfold trail
  rw [h]
  simp only [Bool.false_eq_true, if_false, List.mem_map, List.mem_inits]

/-- The steps that a path is made of are its significant ones, but for those that
stay where they are. -/
theorem filter_significantSteps (p : Path) :
    p.significantSteps.filter (· != .stay) = p.steps.filter (· != .stay) := by
  unfold significantSteps
  cases p.steps with
  | nil => rfl
  | cons first rest =>
    cases first <;> cases p.isAbsolute <;> simp

/-- The first significant steps lead to where the first steps do. -/
theorem exists_prefix_of_significantSteps (p : Path) {steps : List Step}
    (h : steps <+: p.significantSteps) (loc : Location) :
    ∃ steps', steps' <+: p.steps ∧ follow loc steps' = follow loc steps := by
  have hfilter := h.filter (· != .stay)
  rw [filter_significantSteps] at hfilter
  obtain ⟨steps', hprefix, heq⟩ := List.prefix_filter_iff.1 hfilter
  exact ⟨steps', hprefix, by rw [← follow_filter loc steps', ← heq, follow_filter]⟩

end Path

namespace FileTree

/-! ## Walking -/

theorem look_eq_ok_iff {t : FileTree} {loc : Location} {name : String} {entry : Option Entry} :
    t.look loc name = .ok entry
      ↔ name.utf8ByteSize ≤ nameLimit ∧ t.get? (loc ++ [name]) = entry := by
  unfold look
  split
  · rename_i hname
    exact iff_of_false nofun fun h => absurd hname (Nat.not_lt.2 h.1)
  · rename_i hname
    exact ⟨fun h => ⟨Nat.not_lt.1 hname, Except.ok.inj h⟩, fun h => congrArg Except.ok h.2⟩

/-- A step is taken from a directory, and goes down to what is there. -/
theorem walk_cons_eq_ok_iff {t : FileTree} {loc loc' : Location} {step : Step}
    {rest : List Step} :
    t.walk loc (step :: rest) = .ok loc'
      ↔ t.get? loc = some .directory
        ∧ (∀ name, step = .down name → ∃ entry, t.look loc name = .ok (some entry))
        ∧ t.walk (step.lead loc) rest = .ok loc' := by
  conv_lhs => unfold walk
  split
  · rename_i hdirectory
    cases step with
    | stay | up => exact ⟨fun h => ⟨hdirectory, nofun, h⟩, fun h => h.2.2⟩
    | down name =>
      rw [bind_eq_ok]
      constructor
      · rintro ⟨entry, hlook, hrest⟩
        cases entry with
        | none => cases hrest
        | some entry =>
          refine ⟨hdirectory, ?_, hrest⟩
          rintro _ ⟨⟩
          exact ⟨entry, hlook⟩
      · rintro ⟨-, hentry, hrest⟩
        obtain ⟨entry, hlook⟩ := hentry name rfl
        exact ⟨_, hlook, hrest⟩
  · rename_i hdirectory
    exact iff_of_false nofun fun h => hdirectory h.1

theorem walk_append_eq_ok_iff {t : FileTree} {loc loc' : Location} {before after : List Step} :
    t.walk loc (before ++ after) = .ok loc'
      ↔ ∃ m, t.walk loc before = .ok m ∧ t.walk m after = .ok loc' := by
  induction before generalizing loc with
  | nil => exact ⟨fun h => ⟨loc, rfl, h⟩, fun ⟨_, hm, h⟩ => Except.ok.inj hm ▸ h⟩
  | cons step before ih =>
    simp only [List.cons_append, walk_cons_eq_ok_iff, ih]
    constructor
    · rintro ⟨hdirectory, hentry, m, hbefore, hafter⟩
      exact ⟨m, ⟨hdirectory, hentry, hbefore⟩, hafter⟩
    · rintro ⟨m, ⟨hdirectory, hentry, hbefore⟩, hafter⟩
      exact ⟨hdirectory, hentry, m, hbefore, hafter⟩

/-- Walking leads where the steps do, through directories. -/
theorem walk_eq_ok {t : FileTree} {loc loc' : Location} {steps : List Step}
    (h : t.walk loc steps = .ok loc') :
    loc' = follow loc steps
      ∧ ∀ before, before <+: steps → before ≠ steps →
          t.get? (follow loc before) = some .directory := by
  induction steps generalizing loc with
  | nil =>
    cases h
    exact ⟨rfl, fun before hbefore hne => absurd (List.prefix_nil.1 hbefore) hne⟩
  | cons step rest ih =>
    obtain ⟨hdirectory, -, hrest⟩ := walk_cons_eq_ok_iff.1 h
    obtain ⟨hloc, hway⟩ := ih hrest
    refine ⟨hloc, fun before hbefore hne => ?_⟩
    cases before with
    | nil => exact hdirectory
    | cons first before =>
      obtain ⟨rfl, hprefix⟩ := List.cons_prefix_cons.1 hbefore
      exact hway before hprefix fun heq => hne (by rw [heq])

/-- Every location before the last that a path leads through is a directory. -/
def LeadsThrough (t : FileTree) (cwd : Location) (p : Path) : Prop :=
  ∀ steps, steps <+: p.steps → steps ≠ p.steps →
    t.get? (follow (start cwd p) steps) = some .directory

theorem isEmpty_text_of_pathFault? {p : Path} (h : pathFault? p = none) :
    p.text.isEmpty = false := by
  unfold pathFault? at h
  split at h
  · cases h
  · split at h
    · cases h
    · rename_i hempty
      exact Bool.not_eq_true _ ▸ hempty

/-- An entry is found at the end of a path that can be walked. A slash there lets
only a directory be found. -/
theorem entryAt_eq_ok_iff {t : FileTree} {cwd : Location} {p : Path} {entry : Entry} :
    t.entryAt cwd p = .ok entry
      ↔ pathFault? p = none ∧ t.walk (start cwd p) p.steps = .ok (p.location cwd)
        ∧ t.get? (p.location cwd) = some entry
        ∧ (p.endsInSlash = true → entry = .directory) := by
  unfold entryAt
  split
  · rename_i hfault
    rw [hfault]
    exact iff_of_false nofun nofun
  · rename_i hfault
    rw [bind_eq_ok]
    constructor
    · rintro ⟨loc, hwalk, hentry⟩
      obtain ⟨rfl, -⟩ := walk_eq_ok hwalk
      refine ⟨hfault, hwalk, ?_⟩
      show t.get? (follow (start cwd p) p.steps) = _ ∧ _
      split at hentry <;> cases hentry
      · exact ⟨‹_›, fun _ => rfl⟩
      · rename_i hfile hslash
        exact ⟨hfile, fun h => absurd (hslash.symm.trans h) Bool.false_ne_true⟩
    · rintro ⟨-, hwalk, hentry, hslash⟩
      refine ⟨_, hwalk, ?_⟩
      rw [hentry]
      cases entry with
      | directory => rfl
      | file content =>
        have hends : p.endsInSlash = false := Bool.eq_false_iff.2 fun h => by cases hslash h
        rw [hends]

/-- An entry that is found stands at the location of its path. -/
theorem entryAt_eq_ok {t : FileTree} {cwd : Location} {p : Path} {entry : Entry}
    (h : t.entryAt cwd p = .ok entry) :
    p.text.isEmpty = false ∧ t.LeadsThrough cwd p ∧ t.get? (p.location cwd) = some entry := by
  obtain ⟨hfault, hwalk, hentry, -⟩ := entryAt_eq_ok_iff.1 h
  exact ⟨isEmpty_text_of_pathFault? hfault, (walk_eq_ok hwalk).2, hentry⟩

/-- The directory around the end of a path is found by walking up to the last step. -/
theorem parentAt_eq_ok_iff {t : FileTree} {cwd loc : Location} {p : Path} {last : Option Step} :
    t.parentAt cwd p = .ok (loc, last)
      ↔ pathFault? p = none ∧ t.walk (start cwd p) p.steps.dropLast = .ok loc
        ∧ t.get? loc = some .directory ∧ p.steps.getLast? = last := by
  unfold parentAt
  split
  · rename_i hfault
    rw [hfault]
    exact iff_of_false nofun nofun
  · rename_i hfault
    rw [bind_eq_ok]
    constructor
    · rintro ⟨loc', hwalk, hparent⟩
      split at hparent
      · rename_i hdirectory
        obtain ⟨rfl, hlast⟩ := Prod.mk.inj (Except.ok.inj hparent)
        exact ⟨hfault, hwalk, hdirectory, hlast⟩
      · cases hparent
    · rintro ⟨-, hwalk, hdirectory, hlast⟩
      refine ⟨loc, hwalk, ?_⟩
      rw [hdirectory, hlast]

/-- The directory that holds what a path leads to is there, and the last step
leads from it to the location of the path. -/
theorem parentAt_eq_ok {t : FileTree} {cwd loc : Location} {p : Path} {name : String}
    (h : t.parentAt cwd p = .ok (loc, some (.down name))) :
    p.text.isEmpty = false ∧ t.LeadsThrough cwd p ∧ p.location cwd = loc ++ [name] := by
  obtain ⟨hfault, hwalk, hdirectory, hlast⟩ := parentAt_eq_ok_iff.1 h
  obtain ⟨rfl, hway⟩ := walk_eq_ok hwalk
  have hsteps : p.steps.dropLast ++ [.down name] = p.steps :=
    List.dropLast_append_getLast? _ hlast
  refine ⟨isEmpty_text_of_pathFault? hfault, fun before hbefore hne => ?_, ?_⟩
  · rw [← hsteps] at hbefore hne
    by_cases heq : before = p.steps.dropLast
    · rw [heq]
      exact hdirectory
    · exact hway before ((List.prefix_concat_iff.1 hbefore).resolve_left hne) heq
  · show follow (start cwd p) p.steps = _
    rw [← hsteps, follow_append, hsteps]
    rfl

theorem get?_of_look {t : FileTree} {loc : Location} {name : String} {entry : Option Entry}
    (h : t.look loc name = .ok entry) : t.get? (loc ++ [name]) = entry :=
  (look_eq_ok_iff.1 h).2

/-! ## Operations on one entry -/

/-- A directory is made by a name that is not taken, in a directory that is there. -/
theorem makeDir_eq_ok_iff {t t' : FileTree} {cwd : Location} {p : Path} :
    t.makeDir cwd p = .ok t'
      ↔ ∃ loc name, t.parentAt cwd p = .ok (loc, some (.down name))
          ∧ t.look loc name = .ok none ∧ t' = t.put (loc ++ [name]) .directory := by
  constructor
  · intro h
    obtain ⟨⟨loc, last⟩, hparent, hmade⟩ := bind_eq_ok.1 h
    split at hmade
    · rename_i hlast
      obtain ⟨rfl, rfl⟩ := Prod.mk.inj hlast
      obtain ⟨entry, hlook, hput⟩ := bind_eq_ok.1 hmade
      cases entry with
      | some entry => cases hput
      | none => exact ⟨_, _, hparent, hlook, (Except.ok.inj hput).symm⟩
    · cases hmade
  · rintro ⟨loc, name, hparent, hlook, rfl⟩
    exact bind_eq_ok.2 ⟨_, hparent, bind_eq_ok.2 ⟨_, hlook, rfl⟩⟩

/-- A file is written by a name that is not that of a directory, in a directory that
is there. -/
theorem writeFile_eq_ok_iff {t t' : FileTree} {cwd : Location} {p : Path} {content : ByteArray} :
    t.writeFile cwd p content = .ok t'
      ↔ p.endsInSlash = false
        ∧ ∃ loc name, t.parentAt cwd p = .ok (loc, some (.down name))
          ∧ (∃ entry, t.look loc name = .ok entry ∧ entry ≠ some .directory)
          ∧ t' = t.put (loc ++ [name]) (.file content) := by
  constructor
  · intro h
    obtain ⟨⟨loc, last⟩, hparent, hwritten⟩ := bind_eq_ok.1 h
    split at hwritten
    · rename_i hlast
      obtain ⟨rfl, rfl⟩ := Prod.mk.inj hlast
      split at hwritten
      · cases hwritten
      · rename_i hslash
        obtain ⟨entry, hlook, hput⟩ := bind_eq_ok.1 hwritten
        split at hput
        · cases hput
        · rename_i hentry
          exact ⟨Bool.eq_false_iff.2 hslash, _, _, hparent, ⟨entry, hlook, hentry⟩,
            (Except.ok.inj hput).symm⟩
    · cases hwritten
  · rintro ⟨hslash, loc, name, hparent, ⟨entry, hlook, hentry⟩, rfl⟩
    refine bind_eq_ok.2 ⟨_, hparent, ?_⟩
    dsimp only
    rw [hslash, if_neg Bool.false_ne_true]
    refine bind_eq_ok.2 ⟨entry, hlook, ?_⟩
    match entry, hentry with
    | none, _ | some (.file _), _ => rfl
    | some .directory, hentry => exact absurd rfl hentry

/-- Making a directory puts it where there was nothing. -/
theorem makeDir_eq_ok {t t' : FileTree} {cwd : Location} {p : Path}
    (h : t.makeDir cwd p = .ok t') :
    p.text.isEmpty = false ∧ t.LeadsThrough cwd p ∧ t.get? (p.location cwd) = none
      ∧ p.location cwd ≠ [] ∧ t' = t.put (p.location cwd) .directory := by
  obtain ⟨loc, name, hparent, hlook, rfl⟩ := makeDir_eq_ok_iff.1 h
  obtain ⟨hempty, hway, hloc⟩ := parentAt_eq_ok hparent
  rw [hloc]
  exact ⟨hempty, hway, get?_of_look hlook, List.concat_ne_nil _ _, rfl⟩

/-- Writing a file puts it where there was no directory. -/
theorem writeFile_eq_ok {t t' : FileTree} {cwd : Location} {p : Path} {content : ByteArray}
    (h : t.writeFile cwd p content = .ok t') :
    p.text.isEmpty = false ∧ t.LeadsThrough cwd p
      ∧ t.get? (p.location cwd) ≠ some .directory
      ∧ p.location cwd ≠ [] ∧ t' = t.put (p.location cwd) (.file content) := by
  obtain ⟨-, loc, name, hparent, ⟨entry, hlook, hentry⟩, rfl⟩ := writeFile_eq_ok_iff.1 h
  obtain ⟨hempty, hway, hloc⟩ := parentAt_eq_ok hparent
  rw [hloc, get?_of_look hlook]
  exact ⟨hempty, hway, hentry, List.concat_ne_nil _ _, rfl⟩

/-- A file is written to a path that goes down at its end. -/
theorem getLast?_of_writeFile {t t' : FileTree} {cwd : Location} {p : Path} {content : ByteArray}
    (h : t.writeFile cwd p content = .ok t') :
    p.endsInSlash = false ∧ ∃ name, p.steps.getLast? = some (.down name) := by
  obtain ⟨hslash, loc, name, hparent, -⟩ := writeFile_eq_ok_iff.1 h
  exact ⟨hslash, name, (parentAt_eq_ok_iff.1 hparent).2.2.2⟩

/-! ## Only directories are added -/

/-- **Only directories are added**, at some of the given locations: what there is
stays, and where there is something new it is a directory. -/
def AddsDirectories (locations : List Location) (t t' : FileTree) : Prop :=
  ∀ loc, t'.get? loc = t.get? loc
    ∨ loc ∈ locations ∧ t.get? loc = none ∧ t'.get? loc = some .directory

namespace AddsDirectories

variable {locations locations' : List Location} {t t' t'' : FileTree}

theorem refl (locations : List Location) (t : FileTree) : AddsDirectories locations t t :=
  fun _ => .inl rfl

theorem mono (h : AddsDirectories locations t t') (hsub : locations ⊆ locations') :
    AddsDirectories locations' t t' :=
  fun loc => (h loc).imp_right fun ⟨hmem, hadded⟩ => ⟨hsub hmem, hadded⟩

theorem trans (h : AddsDirectories locations t t') (h' : AddsDirectories locations t' t'') :
    AddsDirectories locations t t'' := by
  intro loc
  rcases h loc with hkept | ⟨hmem, hnone, hadded⟩
  · rw [← hkept]
    exact h' loc
  · refine .inr ⟨hmem, hnone, ?_⟩
    rcases h' loc with hkept | ⟨-, hnone', -⟩
    · rw [hkept, hadded]
    · rw [hadded] at hnone'
      cases hnone'

theorem put {loc : Location} (hnone : t.get? loc = none) (hloc : loc ≠ [])
    (hmem : loc ∈ locations) :
    AddsDirectories locations t (t.put loc .directory) := by
  intro l
  by_cases h : l = loc
  · subst h
    exact .inr ⟨hmem, hnone, get?_put_self t hloc _⟩
  · exact .inl (get?_put_of_ne t h _)

/-- What there is stays. -/
theorem get?_of_some (h : AddsDirectories locations t t') {loc : Location} {entry : Entry}
    (hentry : t.get? loc = some entry) : t'.get? loc = some entry := by
  rcases h loc with hkept | ⟨-, hnone, -⟩
  · rw [hkept, hentry]
  · rw [hentry] at hnone
    cases hnone

end AddsDirectories

/-- A change that only adds directories at the given locations, whether it fails
or not. -/
def OnlyAdds (locations : List Location) (c : Change Unit) : Prop :=
  ∀ t, match c.run t with
    | .ok _ t' | .error _ t' => AddsDirectories locations t t'

namespace OnlyAdds

variable {locations locations' : List Location} {c c' : Change Unit}

theorem mono (h : OnlyAdds locations c) (hsub : locations ⊆ locations') :
    OnlyAdds locations' c := by
  intro t
  have hadds := h t
  cases hrun : c.run t <;> rw [hrun] at hadds <;> exact hadds.mono hsub

theorem seq (h : OnlyAdds locations c) (h' : OnlyAdds locations c') :
    OnlyAdds locations (c >>= fun _ => c') := by
  intro t
  have hfirst := h t
  rw [EStateM.run_bind]
  cases hrun : c.run t with
  | error e t₁ =>
    rw [hrun] at hfirst
    exact hfirst
  | ok u t₁ =>
    rw [hrun] at hfirst
    have hsecond := h' t₁
    dsimp only
    cases hrun' : c'.run t₁ <;> rw [hrun'] at hsecond <;> exact hfirst.trans hsecond

end OnlyAdds

/-! ## Directories with those around them -/

section

variable {t t' : FileTree} {cwd : Location} {p : Path}

theorem location_mem_trail (h : p.text.isEmpty = false) : p.location cwd ∈ p.trail cwd :=
  (Path.mem_trail_iff h _).2 ⟨p.steps, List.prefix_rfl, rfl⟩

/-- Making one directory adds that alone. -/
theorem addsDirectories_makeDir (h : t.makeDir cwd p = .ok t') :
    AddsDirectories (p.trail cwd) t t' := by
  obtain ⟨hempty, -, hnone, hloc, rfl⟩ := makeDir_eq_ok h
  exact .put hnone hloc (location_mem_trail hempty)

/-- A path with a directory at it, and directories before, leads through
directories only. -/
theorem LeadsThrough.trail (h : t.LeadsThrough cwd p)
    (hdirectory : t.get? (p.location cwd) = some .directory) :
    ∀ loc ∈ p.trail cwd, t.get? loc = some .directory := by
  intro loc hloc
  unfold Path.trail at hloc
  split at hloc
  · cases hloc
  · obtain ⟨steps, hsteps, rfl⟩ := List.mem_map.1 hloc
    by_cases heq : steps = p.steps
    · rw [heq]
      exact hdirectory
    · exact h steps ((List.mem_inits _ _).1 hsteps) heq

/-- A tree that adds directories is led through as well. -/
theorem LeadsThrough.of_adds {locations : List Location} (h : t.LeadsThrough cwd p)
    (hadds : AddsDirectories locations t t') : t'.LeadsThrough cwd p :=
  fun steps hsteps hne => hadds.get?_of_some (h steps hsteps hne)

/-- Making sure of a directory is making it, or finding that there is one. -/
theorem run_ensureDir (cwd : Location) (p : Path) (t : FileTree) :
    (ensureDir cwd p).run t
      = match t.makeDir cwd p with
        | .ok t' => .ok () t'
        | .error e =>
          if e = .os .alreadyExists && t.isDirectory cwd p then .ok () t else .error e t := by
  unfold ensureDir
  rw [EStateM.run_bind, EStateM.run_get]
  dsimp only
  cases t.makeDir cwd p with
  | ok t' => rfl
  | error e =>
    dsimp only
    split <;> rfl

theorem isDirectory_iff {t : FileTree} :
    t.isDirectory cwd p = true ↔ t.entryAt cwd p = .ok .directory := by
  unfold isDirectory
  split
  · rename_i hentry
    rw [hentry]
    exact iff_of_true rfl rfl
  · rename_i hother
    exact iff_of_false Bool.false_ne_true hother

theorem onlyAdds_ensureDir (cwd : Location) (p : Path) :
    OnlyAdds (p.trail cwd) (ensureDir cwd p) := by
  intro t
  rw [run_ensureDir]
  cases h : t.makeDir cwd p with
  | ok t' => exact addsDirectories_makeDir h
  | error e =>
    dsimp only
    cases decide (e = .os .alreadyExists) && t.isDirectory cwd p <;> exact .refl _ t

/-- Where a directory has been made sure of, its path leads through directories. -/
theorem directory_of_run_ensureDir (h : (ensureDir cwd p).run t = .ok () t') :
    ∀ loc ∈ p.trail cwd, t'.get? loc = some .directory := by
  rw [run_ensureDir] at h
  split at h
  · rename_i hmade
    cases h
    obtain ⟨-, hway, -, hloc, hput⟩ := makeDir_eq_ok hmade
    refine (hway.of_adds (addsDirectories_makeDir hmade)).trail ?_
    rw [hput]
    exact get?_put_self t hloc _
  · split at h
    · rename_i hthere
      cases h
      obtain ⟨-, hdirectory⟩ := Bool.and_eq_true_iff.1 hthere
      obtain ⟨-, hway, hentry⟩ := entryAt_eq_ok (isDirectory_iff.1 hdirectory)
      exact hway.trail hentry
    · cases h

/-- Making sure of a directory after `outer` is making sure of it, with a change
by `outer` before it or without. -/
theorem run_ensureDirAfter (cwd : Location) (p : Path) (outer : Change Unit) (t : FileTree) :
    (ensureDirAfter cwd p outer).run t = (ensureDir cwd p).run t
      ∨ (ensureDirAfter cwd p outer).run t = (outer >>= fun _ => ensureDir cwd p).run t := by
  unfold ensureDirAfter
  rw [EStateM.run_bind, EStateM.run_get]
  dsimp only
  split
  · exact .inr rfl
  · exact .inl rfl

theorem onlyAdds_ensureDirAfter {outer : Change Unit} (h : OnlyAdds (p.trail cwd) outer) :
    OnlyAdds (p.trail cwd) (ensureDirAfter cwd p outer) := by
  intro t
  rcases run_ensureDirAfter cwd p outer t with hrun | hrun
  · rw [hrun]
    exact onlyAdds_ensureDir cwd p t
  · rw [hrun]
    exact h.seq (onlyAdds_ensureDir cwd p) t

theorem directory_of_run_ensureDirAfter {outer : Change Unit}
    (h : (ensureDirAfter cwd p outer).run t = .ok () t') :
    ∀ loc ∈ p.trail cwd, t'.get? loc = some .directory := by
  rcases run_ensureDirAfter cwd p outer t with hrun | hrun
  · exact directory_of_run_ensureDir (hrun ▸ h)
  · rw [hrun, EStateM.run_bind] at h
    split at h
    · exact directory_of_run_ensureDir h
    · cases h

/-- The directories of the steps so far are on the way of those that follow. -/
theorem trail_along_subset (h : p.text.isEmpty = false) {steps steps' : List Step}
    (hsteps : steps <+: steps') : (p.along steps).trail cwd ⊆ (p.along steps').trail cwd := by
  intro loc hloc
  obtain ⟨before, hbefore, hlead⟩ := (Path.mem_trail_iff (p := p.along steps) h loc).1 hloc
  exact (Path.mem_trail_iff (p := p.along steps') h loc).2
    ⟨before, hbefore.trans hsteps, hlead⟩

/-- Making sure of the directories on a way adds none beside it. -/
theorem onlyAdds_ensureChain (h : p.text.isEmpty = false) (steps : List Step) :
    OnlyAdds ((p.along steps.reverse).trail cwd) (ensureChain cwd p steps) := by
  induction steps with
  | nil => exact fun t => .refl _ t
  | cons last before ih =>
    rw [List.reverse_cons]
    exact onlyAdds_ensureDirAfter (ih.mono (trail_along_subset h (List.prefix_append _ _)))

/-- The significant steps lead through no other locations than all steps do. -/
theorem trail_along_significantSteps_subset (h : p.text.isEmpty = false) {steps : List Step}
    (hsteps : steps <+: p.significantSteps) : (p.along steps).trail cwd ⊆ p.trail cwd := by
  intro loc hloc
  obtain ⟨before, hbefore, hlead⟩ := (Path.mem_trail_iff (p := p.along steps) h loc).1 hloc
  obtain ⟨before', hbefore', hlead'⟩ :=
    p.exists_prefix_of_significantSteps (hbefore.trans hsteps) (start cwd p)
  exact (Path.mem_trail_iff h loc).2 ⟨before', hbefore', hlead'.trans hlead⟩

end

/-- **The missing directories of a path are made**: directories are added on its
way and nowhere else, and there is one at each location it leads through. -/
structure DirectoriesMade (cwd : Location) (p : Path) (t t' : FileTree) : Prop where
  /-- Nothing else changes. -/
  adds : AddsDirectories (p.trail cwd) t t'
  /-- No directory is missing. -/
  directory : ∀ loc ∈ p.trail cwd, t'.get? loc = some .directory

/-- **What making directories does to a tree.** On success the missing directories
of the path are made and nothing else has changed. On a failure directories may
have been made on its way. -/
theorem run_makeDirs (cwd : Location) (p : Path) (t : FileTree) :
    match (makeDirs cwd p).run t with
    | .ok _ t' => DirectoriesMade cwd p t t'
    | .error _ t' => AddsDirectories (p.trail cwd) t t' := by
  unfold makeDirs
  cases hempty : p.text.isEmpty with
  | true =>
    refine ⟨.refl _ t, ?_⟩
    unfold Path.trail
    rw [hempty]
    exact nofun
  | false =>
    have houter : p.significantSteps.reverse.tail.reverse <+: p.significantSteps := by
      rw [List.tail_reverse, List.reverse_reverse]
      exact List.dropLast_prefix _
    have hchain : OnlyAdds (p.trail cwd) (ensureChain cwd p p.significantSteps.reverse.tail) :=
      (onlyAdds_ensureChain hempty _).mono (trail_along_significantSteps_subset hempty houter)
    have hadds := onlyAdds_ensureDirAfter hchain t
    rw [if_neg Bool.false_ne_true]
    split <;> rename_i hrun <;> rw [hrun] at hadds
    · exact ⟨hadds, directory_of_run_ensureDirAfter hrun⟩
    · exact hadds

end FileTree

end FlatRecord
