import FlatRecord.FileTree.Path
import FlatRecord.IoError

/-!
# File trees

Directories and files, as far as a batch of headers can see and change them. An
entry stands at a location, the list of names that lead to it from the root, and
a tree gives the entry at each location. There are no links: a location is
reached by its own names only.

The operations resolve paths as POSIX lays down. Every step is taken from a
directory, a name may have no more than 255 bytes, and `..` at the root stays
there. What an operation does with the last step is its own: a directory is made
only where there is nothing yet, while a file is made or overwritten.

`get?` is the view of a tree. What putting an entry does to it is said in three
lemmas: what was put is there, nothing else changes, and putting what is there
already changes nothing at all.
-/

namespace FlatRecord

/-- What stands at a location. -/
inductive Entry where
  /-- A directory. -/
  | directory
  /-- A file and its bytes. -/
  | file (content : ByteArray)

/-- Files are equal when their bytes are. -/
instance : DecidableEq Entry
  | .directory, .directory => isTrue rfl
  | .directory, .file _ => isFalse nofun
  | .file _, .directory => isFalse nofun
  | .file a, .file b =>
    match ByteArray.instDecidableEq a b with
    | isTrue h => isTrue (congrArg Entry.file h)
    | isFalse h => isFalse fun heq => h (Entry.file.inj heq)

/-- The names that lead to an entry from the root. -/
abbrev Location := List String

/-- A tree of directories and files. -/
structure FileTree where
  /-- The entries below the root, each with its location. -/
  entries : List (Location × Entry)
deriving DecidableEq

namespace FileTree

/-- The tree of an empty root. -/
def empty : FileTree := ⟨[]⟩

/-- The entry at a location. The root is a directory always. -/
def get? (t : FileTree) : Location → Option Entry
  | [] => some .directory
  | loc => t.entries.lookup loc

/-- Puts an entry at a location among others, in the place of the one there. -/
def putAt (loc : Location) (e : Entry) : List (Location × Entry) → List (Location × Entry)
  | [] => [(loc, e)]
  | (l, x) :: rest => if l = loc then (loc, e) :: rest else (l, x) :: putAt loc e rest

/-- The tree with an entry put at a location. -/
def put (t : FileTree) (loc : Location) (e : Entry) : FileTree := ⟨putAt loc e t.entries⟩

/-! ### What putting does to the view -/

theorem get?_of_ne_nil (t : FileTree) {loc : Location} (h : loc ≠ []) :
    t.get? loc = t.entries.lookup loc := by
  cases loc with
  | nil => exact absurd rfl h
  | cons n ns => rfl

theorem lookup_putAt_self (loc : Location) (e : Entry) (entries : List (Location × Entry)) :
    (putAt loc e entries).lookup loc = some e := by
  induction entries with
  | nil => simp [putAt]
  | cons x rest ih =>
    obtain ⟨l, y⟩ := x
    by_cases h : l = loc
    · simp [putAt, h]
    · have hne : (loc == l) = false := by simpa using Ne.symm h
      simp [putAt, h, List.lookup_cons, hne, ih]

theorem lookup_putAt_of_ne {l loc : Location} (h : l ≠ loc) (e : Entry)
    (entries : List (Location × Entry)) :
    (putAt loc e entries).lookup l = entries.lookup l := by
  have hloc : (l == loc) = false := by simpa using h
  induction entries with
  | nil => simp [putAt, List.lookup_cons, hloc]
  | cons x rest ih =>
    obtain ⟨l', y⟩ := x
    by_cases h' : l' = loc
    · subst h'
      simp [putAt, List.lookup_cons, hloc]
    · simp only [putAt, h', if_false, List.lookup_cons, ih]

theorem putAt_of_lookup {loc : Location} {e : Entry} {entries : List (Location × Entry)}
    (h : entries.lookup loc = some e) : putAt loc e entries = entries := by
  induction entries with
  | nil => simp at h
  | cons x rest ih =>
    obtain ⟨l, y⟩ := x
    by_cases hl : l = loc
    · subst hl
      obtain rfl : y = e := by simpa using h
      simp [putAt]
    · have hne : (loc == l) = false := by simpa using Ne.symm hl
      rw [List.lookup_cons, hne] at h
      simp [putAt, hl, ih h]

/-- What was put is there. -/
theorem get?_put_self (t : FileTree) {loc : Location} (h : loc ≠ []) (e : Entry) :
    (t.put loc e).get? loc = some e := by
  rw [get?_of_ne_nil _ h]
  exact lookup_putAt_self loc e t.entries

/-- Nothing else changes. -/
theorem get?_put_of_ne (t : FileTree) {l loc : Location} (h : l ≠ loc) (e : Entry) :
    (t.put loc e).get? l = t.get? l := by
  by_cases hl : l = []
  · subst hl
    rfl
  · rw [get?_of_ne_nil _ hl, get?_of_ne_nil _ hl]
    exact lookup_putAt_of_ne h e t.entries

/-- Putting what is there already changes nothing at all. -/
theorem put_of_get? {t : FileTree} {loc : Location} (hloc : loc ≠ []) {e : Entry}
    (h : t.get? loc = some e) : t.put loc e = t := by
  rw [get?_of_ne_nil _ hloc] at h
  exact congrArg FileTree.mk (putAt_of_lookup h)

/-! ## Resolving paths -/

/-- The bytes that the name of an entry may have. -/
def nameLimit : Nat := 255

/-- The bytes that a path may have, with the NUL that ends it. -/
def pathLimit : Nat := 4096

/-- What is wrong with the text of a path, whatever the tree. -/
def pathFault? (p : Path) : Option IoError :=
  if p.text.toList.contains '\x00' then some .nulInPath
  else if p.text.isEmpty then some (.os .noEntry)
  else if pathLimit ≤ p.text.utf8ByteSize then some (.os .nameTooLong)
  else none

/-- Where a path begins, the working directory given. -/
def start (cwd : Location) (p : Path) : Location := if p.isAbsolute then [] else cwd

/-- Looks a name up in a directory. -/
def look (t : FileTree) (loc : Location) (name : String) : Except IoError (Option Entry) :=
  if nameLimit < name.utf8ByteSize then .error (.os .nameTooLong)
  else .ok (t.get? (loc ++ [name]))

/-- The location that steps lead to, all of which must exist. -/
def walk (t : FileTree) (loc : Location) : List Step → Except IoError Location
  | [] => .ok loc
  | step :: rest =>
    match t.get? loc with
    | some .directory =>
      match step with
      | .stay => t.walk loc rest
      | .up => t.walk loc.dropLast rest
      | .down name => do
        match ← t.look loc name with
        | some _ => t.walk (loc ++ [name]) rest
        | none => .error (.os .noEntry)
    | _ => .error (.os .notDirectory)

/-- The entry a path leads to. A slash at the end asks for a directory. -/
def entryAt (t : FileTree) (cwd : Location) (p : Path) : Except IoError Entry :=
  match pathFault? p with
  | some e => .error e
  | none => do
    let loc ← t.walk (start cwd p) p.steps
    match t.get? loc, p.endsInSlash with
    | some .directory, _ => .ok .directory
    | some (.file content), false => .ok (.file content)
    | some (.file _), true => .error (.os .notDirectory)
    | none, _ => .error (.os .noEntry)

/-- The directory that holds what a path leads to, with the last step. The root
has no last step. -/
def parentAt (t : FileTree) (cwd : Location) (p : Path) :
    Except IoError (Location × Option Step) :=
  match pathFault? p with
  | some e => .error e
  | none => do
    let loc ← t.walk (start cwd p) p.steps.dropLast
    match t.get? loc with
    | some .directory => .ok (loc, p.steps.getLast?)
    | _ => .error (.os .notDirectory)

/-! ## Operations -/

/-- Whether a path leads to a file. -/
def isFile (t : FileTree) (cwd : Location) (p : Path) : Bool :=
  match t.entryAt cwd p with
  | .ok (.file _) => true
  | _ => false

/-- Whether a path leads to a directory. -/
def isDirectory (t : FileTree) (cwd : Location) (p : Path) : Bool :=
  match t.entryAt cwd p with
  | .ok .directory => true
  | _ => false

/-- The bytes of the file at a path. -/
def readFile (t : FileTree) (cwd : Location) (p : Path) : Except IoError ByteArray := do
  match ← t.entryAt cwd p with
  | .file content => .ok content
  | .directory => .error (.os .isDirectory)

/-- Makes a directory where there is nothing. -/
def makeDir (t : FileTree) (cwd : Location) (p : Path) : Except IoError FileTree := do
  match ← t.parentAt cwd p with
  | (loc, some (.down name)) =>
    match ← t.look loc name with
    | some _ => .error (.os .alreadyExists)
    | none => .ok (t.put (loc ++ [name]) .directory)
  | _ => .error (.os .alreadyExists)

/-- Makes a file, or puts new bytes in the place of those it has. -/
def writeFile (t : FileTree) (cwd : Location) (p : Path) (content : ByteArray) :
    Except IoError FileTree := do
  match ← t.parentAt cwd p with
  | (loc, some (.down name)) =>
    if p.endsInSlash then .error (.os .isDirectory)
    else
      match ← t.look loc name with
      | some .directory => .error (.os .isDirectory)
      | _ => .ok (t.put (loc ++ [name]) (.file content))
  | _ => .error (.os .isDirectory)

/-! ## Directories with those around them -/

/-- An operation that changes a tree, and leaves one behind when it fails too. -/
abbrev Change := EStateM IoError FileTree

/-- Makes a directory unless it is there. -/
def ensureDir (cwd : Location) (p : Path) : Change Unit := do
  let t ← get
  match t.makeDir cwd p with
  | .ok t' => set t'
  | .error e => unless e = .os .alreadyExists && t.isDirectory cwd p do throw e

/-- Makes a directory unless it is there, first running `outer` when what is
missing is a directory on the way. -/
def ensureDirAfter (cwd : Location) (p : Path) (outer : Change Unit) : Change Unit := do
  let t ← get
  match t.makeDir cwd p with
  | .error (.os .noEntry) => do
    outer
    ensureDir cwd p
  | _ => ensureDir cwd p

/-- Makes the directories that steps lead through, the last step coming first.
They begin where the path `p` does. -/
def ensureChain (cwd : Location) (p : Path) : List Step → Change Unit
  | [] => pure ()
  | last :: before =>
    ensureDirAfter cwd (p.along (before.reverse ++ [last])) (ensureChain cwd p before)

/-- Makes the directory at a path and those around it that are missing. The
empty path asks for nothing. Directories made before a failure stay. -/
def makeDirs (cwd : Location) (p : Path) : Change Unit :=
  if p.text.isEmpty then pure ()
  else ensureDirAfter cwd p (ensureChain cwd p p.significantSteps.reverse.tail)

end FileTree

end FlatRecord
