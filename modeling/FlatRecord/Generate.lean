import FlatRecord.Compile
import FlatRecord.Failure
import FlatRecord.FileTree.Path
import FlatRecord.Host

/-!
# Generating headers

A run reads the schema from a file and writes the header of each record into a
directory. Everything that can be refused is refused first: the options, a
missing input, an output that is a file, and the schema as a whole, which is
compiled in memory to its last record. Only then is the directory made and are
the files written, one after the other. A file that cannot be written ends the
run and leaves those before it in place.
-/

namespace FlatRecord

variable {m : Type → Type} [Monad m] [Host m]

/-- A part of a run: it works on a host and may fail. -/
abbrev Run (m : Type → Type) := ExceptT Failure m

/-- Reports an event. -/
def report (e : Event) : Run m Unit := ExceptT.lift (Host.log e)

/-- Reports events, in order. -/
def reportAll : List Event → Run m Unit
  | [] => pure ()
  | e :: rest => do
    report e
    reportAll rest

/-- Does a file operation, whose failure is a failure of the run in the given
way. -/
def attempt {α : Type} (failure : IoError → Failure) (operation : m (Except IoError α)) :
    Run m α := do
  match ← ExceptT.lift operation with
  | .ok a => return a
  | .error e => throw (failure e)

namespace Options

/-- Checks the options before a run: the namespace must be one, and an extension
without a period is reported but let through. -/
def check (o : Options) : Run m Unit := do
  match o.invalidScope? with
  | some scope => throw (.invalidNamespace scope)
  | none => unless o.extensionHasPeriod do report (.extensionWithoutPeriod o.extension)

end Options

/-- The text of a schema file. -/
def readSchema (input : String) : Run m String := do
  unless ← ExceptT.lift (Host.isFile input) do
    throw (.inputNotFound input)
  report (.reading input)
  let content ← attempt .io (Host.readFile input)
  match String.fromUTF8? content with
  | some text => return text
  | none => throw (.io .notUtf8)

/-- Refuses an output directory that is a file. -/
def checkOutput (output : String) : Run m Unit := do
  if ← ExceptT.lift (Host.isFile output) then
    throw (.outputIsFile output)

/-- Compiles a schema text, reporting the layouts. -/
def compileReported (text : String) (options : Options) : Run m Compilation := do
  reportAll (compileEvents text)
  match compile text options with
  | .ok compilation => return compilation
  | .error e => throw (.schema e)

/-- Writes files into a directory, and tells where. -/
def writeFiles (directory : String) : List HeaderFile → Run m (List String)
  | [] => return []
  | file :: rest => do
    let path := Path.join directory file.fileName
    report (.writingFile file.record path)
    attempt (.fileNotWritten path) (Host.writeFile path file.source)
    return path :: (← writeFiles directory rest)

/-- Makes a directory and writes files into it, and tells where. -/
def writeGenerated (directory : String) (files : List HeaderFile) : Run m (List String) := do
  attempt .io (Host.makeDirs directory)
  report (.writingFiles directory)
  writeFiles directory files

/-- Generates the headers of the schema in the file `input` into the directory
`output`. -/
def generateFiles (input output : String) (options : Options) : Run m (List HeaderFile) := do
  options.check
  let text ← readSchema input
  checkOutput output
  let compilation ← compileReported text options
  let _ ← writeGenerated output compilation.files
  return compilation.files

end FlatRecord
