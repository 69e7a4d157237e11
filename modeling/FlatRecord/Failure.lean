import FlatRecord.IoError
import FlatRecord.Text.Quoted
import FlatRecord.Violation

/-!
# Failures of a run

What can end a run: an error in the schema, an option or a path that cannot be
used, or a file operation that failed.
-/

namespace FlatRecord

/-- What ended a run. -/
inductive Failure where
  /-- The schema is wrong. -/
  | schema (error : SchemaError)
  /-- Reading the schema or making the directory failed. -/
  | io (error : IoError)
  /-- The input is not a file. -/
  | inputNotFound (path : String)
  /-- The output is a file. -/
  | outputIsFile (path : String)
  /-- The namespace cannot be opened. -/
  | invalidNamespace (scope : String)
  /-- A header could not be written. -/
  | fileNotWritten (path : String) (error : IoError)
deriving DecidableEq, Repr

namespace Failure

/-- The report of a failure, in words. -/
def message : Failure → String
  | .schema error => error.message
  | .io error => "I/O error: " ++ error.message
  | .inputNotFound path => "Input file " ++ path ++ " does not exist"
  | .outputIsFile path => "Output dir " ++ path ++ " specifies a file"
  | .invalidNamespace scope => "Invalid namespace " ++ Text.quote scope
  | .fileNotWritten path error => "File error writing " ++ path ++ ": " ++ error.message

/-- The line of the schema that a failure is about, if it is about one. -/
def line? : Failure → Option Nat
  | .schema error => some error.line
  | _ => none

end Failure

end FlatRecord
