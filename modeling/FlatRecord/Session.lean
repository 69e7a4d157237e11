import FlatRecord.FileTree
import FlatRecord.Host

/-!
# Sessions

A session is a host made of values: a file tree, the working directory in it,
and the events reported so far. What a run does to files is what it makes of the
session's tree.
-/

namespace FlatRecord

/-- A file tree with a working directory and a log. -/
structure Session where
  /-- The files. -/
  tree : FileTree
  /-- Where paths begin that do not begin at the root. -/
  cwd : Location
  /-- The events so far, the first one first. -/
  log : List Event

namespace Session

/-- Runs a change of the tree. -/
def change (s : Session) (c : FileTree.Change Unit) : Except IoError Unit × Session :=
  match c.run s.tree with
  | .ok _ tree => (.ok (), { s with tree })
  | .error e tree => (.error e, { s with tree })

/-- Writes a text to a file. -/
def writeFile (s : Session) (path text : String) : Except IoError Unit × Session :=
  match s.tree.writeFile s.cwd (.ofText path) text.toUTF8 with
  | .ok tree => (.ok (), { s with tree })
  | .error e => (.error e, s)

instance : Host (StateM Session) where
  isFile path s := (s.tree.isFile s.cwd (.ofText path), s)
  readFile path s := (s.tree.readFile s.cwd (.ofText path), s)
  makeDirs path s := s.change (FileTree.makeDirs s.cwd (.ofText path))
  writeFile path text s := s.writeFile path text
  log e s := ((), { s with log := s.log ++ [e] })

end Session

end FlatRecord
