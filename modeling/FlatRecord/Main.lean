import FlatRecord.CommandLine
import FlatRecord.CommandLine.LogFilter

/-!
# The program

The command line on the files of the machine: `Host` by input and output, the log
on standard error under the filter in the environment.
-/

namespace FlatRecord

/-- An action of the program, under a log filter. -/
abbrev Program := ReaderT LogFilter IO

namespace Program

/-- The failure behind an error of the system. -/
def ioError : IO.Error → IoError
  | .noFileOrDirectory _ _ _ => .os .noEntry
  | .alreadyExists _ _ _ => .os .alreadyExists
  | .inappropriateType _ code details => .os (ofCode code details)
  | .invalidArgument _ code details => .os (ofCode code details)
  | .permissionDenied _ code details => .os (ofCode code details)
  | .resourceExhausted _ code details => .os (ofCode code details)
  | .otherError code details => .os (ofCode code details)
  | e => .os (.other 5 e.toString)
where
  /-- The reason of a number. -/
  ofCode (code : UInt32) (details : String) : OsError :=
    match code.toNat with
    | 20 => .notDirectory
    | 21 => .isDirectory
    | 36 => .nameTooLong
    | n => .other n details

/-- Does an action, its errors made failures. -/
def guarded {α : Type} (action : IO α) : Program (Except IoError α) := fun _ => do
  try
    return .ok (← action)
  catch e =>
    return .error (ioError e)

/-- Whether something can be read as a file, or could if it were allowed. -/
def isFile (path : String) : Program Bool := fun _ => do
  try
    let _ ← IO.FS.readBinFile path
    return true
  catch e =>
    match e with
    | .permissionDenied _ _ _ => return true
    | _ => return false

/-- Makes a directory with those around it. -/
def makeDirs (path : String) : IO Unit :=
  unless path.isEmpty do IO.FS.createDirAll path

instance : Host Program where
  isFile := isFile
  readFile path := guarded (IO.FS.readBinFile path)
  makeDirs path := guarded (makeDirs path)
  writeFile path text := guarded (IO.FS.writeFile path text)
  log e := do
    if (← read).passes e then
      IO.eprintln e.render

end Program

/-- The log filter of the environment. -/
def environmentFilter : IO LogFilter := do
  match ← IO.getEnv "RUST_LOG" with
  | some text => return .ofText text
  | none => return .default

/-- What is printed when help is asked for. -/
def helpText : String :=
  "Generates SeriStruct records from IDL\n\n"
    ++ "Usage: ssgen [OPTIONS] --input <INPUT> --output <OUTPUT>\n\n"
    ++ "Options:\n"
    ++ "  -i, --input <INPUT>          Input IDL file\n"
    ++ "  -o, --output <OUTPUT>        Path to put generated header files\n"
    ++ "      --guard                  Use a #define guard rather than #pragma once\n"
    ++ "  -n, --namespace <NAMESPACE>  A namespace for qualifying the generated records\n"
    ++ "      --ext <EXT>              The extension for generated header files "
    ++ "[default: .gen.hpp]\n"
    ++ "  -m, --mut                    Make all fields mutable regardless of input\n"
    ++ "      --print-layout           Print each record's computed layout as JSON on stdout\n"
    ++ "  -h, --help                   Print help\n"

/-- Says why nothing is run. -/
def explain : Usage → IO Unit
  | .helpWanted => IO.print helpText
  | .notUnderstood =>
    IO.eprintln "error: the arguments were not understood; for more information, try '--help'."

end FlatRecord

open FlatRecord in
/-- Runs the program. -/
def main (arguments : List String) : IO UInt32 := do
  match CommandLine.request arguments with
  | .error usage => do
    explain usage
    return (CommandLine.usageExitCode usage).toUInt32
  | .ok request => do
    let program : Program CommandLine.Outcome := CommandLine.run request
    let outcome ← program.run (← environmentFilter)
    IO.print outcome.printed
    if let some message := outcome.message then
      IO.eprintln message
    return outcome.exitCode.toUInt32
