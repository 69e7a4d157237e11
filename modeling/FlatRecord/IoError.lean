/-!
# Failures of file operations

What a file operation can fail with: a reason that the operating system gives,
with its number, or one of two that are found before and after it is asked.
-/

namespace FlatRecord

/-- A reason the operating system gives. -/
inductive OsError where
  /-- A component of the path does not exist. -/
  | noEntry
  /-- There is something at the path already. -/
  | alreadyExists
  /-- A component of the path that would have to be a directory is none. -/
  | notDirectory
  /-- The path leads to a directory. -/
  | isDirectory
  /-- A component of the path, or all of it, is too long. -/
  | nameTooLong
  /-- Any other reason. -/
  | other (code : Nat) (reason : String)
deriving DecidableEq, Repr

namespace OsError

/-- The number of a reason. -/
def code : OsError → Nat
  | .noEntry => 2
  | .alreadyExists => 17
  | .notDirectory => 20
  | .isDirectory => 21
  | .nameTooLong => 36
  | .other code _ => code

/-- The reason in words. -/
def reason : OsError → String
  | .noEntry => "No such file or directory"
  | .alreadyExists => "File exists"
  | .notDirectory => "Not a directory"
  | .isDirectory => "Is a directory"
  | .nameTooLong => "File name too long"
  | .other _ reason => reason

end OsError

/-- A failed file operation. -/
inductive IoError where
  /-- The operating system refused. -/
  | os (reason : OsError)
  /-- A path with a NUL character cannot be asked for. -/
  | nulInPath
  /-- What was read is not UTF-8. -/
  | notUtf8
deriving DecidableEq, Repr

/-- The failure in words. -/
def IoError.message : IoError → String
  | .os e => e.reason ++ " (os error " ++ e.code.repr ++ ")"
  | .nulInPath => "file name contained an unexpected NUL byte"
  | .notUtf8 => "stream did not contain valid UTF-8"

end FlatRecord
