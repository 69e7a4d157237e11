import FlatRecord.Text.Pieces

/-!
# Paths

A path is text: names of entries with slashes between them, from the root when
a slash comes first and from the working directory otherwise. A `Path` is such a
text taken apart into steps. Two things about the text are kept beside them,
since the steps do not show them and operations ask for both: whether it ends in
a slash, and the text itself.
-/

namespace FlatRecord

/-- A step along a path. -/
inductive Step where
  /-- Stays where it is, written `.`. -/
  | stay
  /-- Goes to the directory around, written `..`. -/
  | up
  /-- Goes to an entry of the directory. -/
  | down (name : String)
deriving DecidableEq, Repr

/-- The step that a name in a path stands for. -/
def Step.ofChars (name : List Char) : Step :=
  if name = ['.'] then .stay else if name = ['.', '.'] then .up else .down (String.ofList name)

/-- A path taken apart. -/
structure Path where
  /-- The path as it was given. -/
  text : String
  /-- Whether it goes from the root. -/
  isAbsolute : Bool
  /-- Its steps. -/
  steps : List Step
  /-- Whether a slash ends it. -/
  endsInSlash : Bool
deriving DecidableEq, Repr

namespace Path

/-- Takes the text of a path apart. Slashes may be repeated. -/
def ofText (text : String) : Path where
  text := text
  isAbsolute := text.toList.head? == some '/'
  steps := ((Text.pieces (· == '/') text.toList).filter (!·.isEmpty)).map Step.ofChars
  endsInSlash := text.toList.getLast? == some '/'

/-- The path of a file in a directory. Nothing is put in front of the file's
name when the directory is given by the empty path, and no slash is doubled. -/
def join (directory file : String) : String :=
  match directory.toList.getLast? with
  | none => file
  | some '/' => directory ++ file
  | some _ => directory ++ "/" ++ file

/-- The steps of a path with those left out that stay where they are. One that
begins a path from the working directory is kept. -/
def significantSteps (p : Path) : List Step :=
  match p.steps with
  | [] => []
  | first :: rest =>
    let rest := rest.filter (· != .stay)
    if first == .stay && p.isAbsolute then rest else first :: rest

/-- The path that leads along the given steps from where this one begins. -/
def along (p : Path) (steps : List Step) : Path where
  text := p.text
  isAbsolute := p.isAbsolute
  steps := steps
  endsInSlash := false

end Path

end FlatRecord
