import FlatRecord.Event
import FlatRecord.IoError

/-!
# The host of a run

What a run asks of the machine it runs on: a few operations on files, which are
named by paths as the user gives them, and a log. The run itself is written over
any such host (`FlatRecord.Generate`), so that the one program has a meaning on a
file tree (`FlatRecord.Session`) and does its work on a disk.
-/

namespace FlatRecord

/-- A machine with files and a log. -/
class Host (m : Type → Type) where
  /-- Whether a path leads to a file. -/
  isFile : String → m Bool
  /-- The bytes of a file. -/
  readFile : String → m (Except IoError ByteArray)
  /-- Makes a directory and those around it that are missing. -/
  makeDirs : String → m (Except IoError Unit)
  /-- Makes or overwrites a file with a text. -/
  writeFile : String → String → m (Except IoError Unit)
  /-- Reports an event. -/
  log : Event → m Unit

end FlatRecord
