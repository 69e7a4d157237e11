import FlatRecord.Text.Terminal

/-!
# Events

What a run reports while it goes on. An event is logged at a level and under
the name of the part of the program it comes from. Its message may quote paths,
and is shown with nothing in it that a terminal would act on; values that it
carries beside the message follow behind as they are.
-/

namespace FlatRecord

/-- How much an event matters. -/
inductive Level where
  /-- The run cannot go on. -/
  | error
  /-- Something is probably not meant. -/
  | warn
  /-- The course of the run. -/
  | info
  /-- Its details. -/
  | debug
  /-- Everything. -/
  | trace
deriving DecidableEq, Repr

namespace Level

/-- The name of a level in a log line. -/
def label : Level → String
  | .error => "ERROR"
  | .warn => "WARN"
  | .info => "INFO"
  | .debug => "DEBUG"
  | .trace => "TRACE"

/-- The rank of a level, the most important first. -/
def rank : Level → Nat
  | .error => 1
  | .warn => 2
  | .info => 3
  | .debug => 4
  | .trace => 5

end Level

/-- Something a run reports. -/
inductive Event where
  /-- The extension for headers does not begin with a period. -/
  | extensionWithoutPeriod (extension : String)
  /-- The schema is about to be read. -/
  | reading (path : String)
  /-- A record was laid out. -/
  | laidOut (record : String) (fields bufferSize : Nat)
  /-- The directory for the headers is there. -/
  | writingFiles (directory : String)
  /-- The header of a record is about to be written. -/
  | writingFile (record path : String)
  /-- The run is over and has written this many headers. -/
  | generated (count : Nat)
deriving DecidableEq, Repr

namespace Event

/-- The level of an event. -/
def level : Event → Level
  | .extensionWithoutPeriod _ => .warn
  | .reading _ => .info
  | .laidOut .. => .debug
  | .writingFiles _ => .info
  | .writingFile .. => .info
  | .generated _ => .info

/-- The part of the program an event comes from. -/
def target : Event → String
  | .extensionWithoutPeriod _ => "seristruct_compiler::options"
  | .reading _ => "seristruct_compiler::compiler"
  | .laidOut .. => "seristruct_compiler::compiler"
  | .writingFiles _ => "seristruct_compiler::compiler"
  | .writingFile .. => "seristruct_compiler::compiler"
  | .generated _ => "ssgen"

/-- The message of an event. -/
def message : Event → String
  | .extensionWithoutPeriod _ => "extension supplied does not start with period (.)"
  | .reading path => "Reading IDL from: " ++ path
  | .laidOut .. => "computed layout"
  | .writingFiles directory => "Writing generated files to: " ++ directory
  | .writingFile record path => "Writing " ++ record ++ " to " ++ path ++ "..."
  | .generated count => "Generated " ++ count.repr ++ " record(s)"

/-- The values that an event carries beside its message, under their names. -/
def values : Event → List (String × String)
  | .extensionWithoutPeriod extension => [("extension", extension)]
  | .laidOut record fields bufferSize =>
    [("record", record), ("fields", fields.repr), ("buffer_size", bufferSize.repr)]
  | .reading _ | .writingFiles _ | .writingFile .. | .generated _ => []

/-- The log line of an event: the message, made inert, and the values as they
are. -/
def render (e : Event) : String :=
  e.level.label ++ " " ++ e.target ++ ": " ++ Text.inert e.message
    ++ String.join (e.values.map fun (name, value) => " " ++ name ++ "=" ++ value)

end Event

end FlatRecord
