import FlatRecord.CommandLine.Arguments
import FlatRecord.Generate
import FlatRecord.Layout.Json

/-!
# The command line

A call of the program: the arguments say what to generate, the run generates it,
and an exit code, the text printed and a message say how that went. When the
arguments ask for help or are not understood, nothing is run.
-/

namespace FlatRecord.CommandLine

/-- How a call of the program ended. -/
structure Outcome where
  /-- The exit code. -/
  exitCode : Nat
  /-- The text printed. -/
  printed : String
  /-- The message about a failure. -/
  message : Option String
deriving DecidableEq, Repr

/-- The exit code of a call that generates nothing for the arguments' sake. -/
def usageExitCode : Usage → Nat
  | .helpWanted => 0
  | .notUnderstood => 2

/-- The text to print about generated files. -/
def printedLayouts (request : Request) (files : List HeaderFile) : String :=
  if request.printLayout then String.join (files.map (·.layout.json)) else ""

variable {m : Type → Type} [Monad m] [Host m]

/-- Generates what is asked for. -/
def generate (request : Request) : Run m (List HeaderFile) := do
  let files ← generateFiles request.input request.output request.options
  report (.generated files.length)
  return files

/-- Runs a request to its end. -/
def run (request : Request) : m Outcome := do
  match ← (generate request).run with
  | .ok files => return ⟨0, printedLayouts request files, none⟩
  | .error failure => return ⟨2, "", some failure.message⟩

end FlatRecord.CommandLine
