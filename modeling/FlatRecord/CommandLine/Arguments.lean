import FlatRecord.Options

/-!
# Arguments

The command line takes switches, which stand alone, and settings, which take a
value. Each has a long name, `--guard`, and some have a letter, `-m`. A value is
attached to its setting, as in `--ext=.h`, `-i=in` and `-iin`, or is the next
argument, which then may not look like an option itself. Letters may be joined,
`-mi in`, up to the first that is a setting. Nothing may be given twice, input and
output must be given, and nothing may be given that is not an option. A `--`
ends the options, and as there are no other arguments only nothing may follow it.

Arguments are read from the left up to the first fault, and a request for help
that comes before it is granted.
-/

namespace FlatRecord

/-- An option that stands alone. -/
inductive Switch where
  /-- Guard headers by a macro. -/
  | guard
  /-- Give every field a setter. -/
  | allMutable
  /-- Print the layouts. -/
  | printLayout
  /-- Explain the command line. -/
  | help
deriving DecidableEq, Repr

/-- An option that takes a value. -/
inductive Setting where
  /-- The schema file. -/
  | input
  /-- The directory for the headers. -/
  | output
  /-- The namespace around the classes. -/
  | scope
  /-- The extension of the headers. -/
  | extension
deriving DecidableEq, Repr

/-- An option of the command line. -/
inductive CommandOption where
  /-- One that stands alone. -/
  | switch (s : Switch)
  /-- One that takes a value. -/
  | setting (s : Setting)
deriving DecidableEq, Repr

namespace CommandOption

/-- The option of a long name. -/
def ofLong? : List Char → Option CommandOption := fun name =>
  [("input", setting .input), ("output", setting .output), ("guard", switch .guard),
   ("namespace", setting .scope), ("ext", setting .extension), ("mut", switch .allMutable),
   ("print-layout", switch .printLayout), ("help", switch .help)].lookup (String.ofList name)

/-- The option of a letter. -/
def ofLetter? : Char → Option CommandOption
  | 'i' => some (.setting .input)
  | 'o' => some (.setting .output)
  | 'n' => some (.setting .scope)
  | 'm' => some (.switch .allMutable)
  | 'h' => some (.switch .help)
  | _ => none

end CommandOption

/-- The options met so far. -/
structure Given where
  /-- The switches. -/
  switches : List Switch
  /-- The settings with their values. -/
  settings : List (Setting × String)
deriving DecidableEq, Repr

/-- What the command line asks for. -/
structure Request where
  /-- The schema file. -/
  input : String
  /-- The directory for the headers. -/
  output : String
  /-- The choices about the headers. -/
  options : Options
  /-- Whether to print the layouts. -/
  printLayout : Bool
deriving DecidableEq, Repr

/-- Why a command line asks for nothing to be generated. -/
inductive Usage where
  /-- It asks for help. -/
  | helpWanted
  /-- It is not one of the forms that are understood. -/
  | notUnderstood
deriving DecidableEq, Repr

namespace Given

/-- No options. -/
def none : Given := ⟨[], []⟩

/-- The value of a setting. -/
def value? (g : Given) (s : Setting) : Option String := g.settings.lookup s

/-- Adds a switch. -/
def turnOn (g : Given) (s : Switch) : Except Usage Given :=
  if s = .help then .error .helpWanted
  else if s ∈ g.switches then .error .notUnderstood
  else .ok { g with switches := s :: g.switches }

/-- Whether a setting is a path, which may not be empty. -/
def isPath : Setting → Bool
  | .input | .output => true
  | .scope | .extension => false

/-- Adds a setting. -/
def set (g : Given) (s : Setting) (value : String) : Except Usage Given :=
  if (g.value? s).isSome || (isPath s && value.isEmpty) then .error .notUnderstood
  else .ok { g with settings := (s, value) :: g.settings }

/-- What the options given ask for. -/
def request (g : Given) : Except Usage Request :=
  match g.value? .input, g.value? .output with
  | some input, some output =>
    let options : Options := {}
    .ok {
      input
      output
      options := {
        inclusionGuard := if .guard ∈ g.switches then .macroName else .pragmaOnce
        scope := g.value? .scope
        extension := (g.value? .extension).getD options.extension
        allMutable := .allMutable ∈ g.switches }
      printLayout := .printLayout ∈ g.switches }
  | _, _ => .error .notUnderstood

end Given

/-- How far the arguments have been read. -/
inductive Intake where
  /-- Any option may come next. -/
  | options (given : Given)
  /-- The value of a setting must come next. -/
  | valueOf (s : Setting) (given : Given)
  /-- The options have ended, and nothing may come. -/
  | ended (given : Given)
deriving DecidableEq, Repr

namespace Intake

/-- After a long option, of which this is the part behind the two hyphens. -/
def afterLong (g : Given) (text : List Char) : Except Usage Intake :=
  let name := text.takeWhile (· != '=')
  match CommandOption.ofLong? name, text.drop name.length with
  | some (.switch s), [] => options <$> g.turnOn s
  | some (.setting s), [] => .ok (valueOf s g)
  | some (.setting s), _ :: value => options <$> g.set s (String.ofList value)
  | _, _ => .error .notUnderstood

/-- After joined letters, of which these stand behind the hyphen. -/
def afterLetters (g : Given) : List Char → Except Usage Intake
  | [] => .ok (options g)
  | letter :: rest =>
    match CommandOption.ofLetter? letter with
    | some (.switch s) => do afterLetters (← g.turnOn s) rest
    | some (.setting s) =>
      match rest with
      | [] => .ok (valueOf s g)
      | '=' :: value => options <$> g.set s (String.ofList value)
      | value => options <$> g.set s (String.ofList value)
    | none => .error .notUnderstood

/-- Whether an argument looks like an option, so that it cannot be a value. A
lone hyphen does not. -/
def looksLikeOption (argument : String) : Bool :=
  match argument.toList with
  | '-' :: _ :: _ => true
  | _ => false

/-- Reads one argument. -/
def read (intake : Intake) (argument : String) : Except Usage Intake :=
  match intake with
  | .options g =>
    match argument.toList with
    | ['-', '-'] => .ok (ended g)
    | '-' :: '-' :: long => afterLong g long
    | '-' :: letter :: letters => afterLetters g (letter :: letters)
    | _ => .error .notUnderstood
  | .valueOf s g =>
    if looksLikeOption argument then .error .notUnderstood
    else options <$> g.set s argument
  | .ended _ => .error .notUnderstood

/-- Reads arguments one after the other. -/
def readAll (intake : Intake) : List String → Except Usage Intake
  | [] => .ok intake
  | argument :: rest => do readAll (← intake.read argument) rest

/-- What the arguments read ask for, when no more come. -/
def request : Intake → Except Usage Request
  | .options g | .ended g => g.request
  | .valueOf _ _ => .error .notUnderstood

end Intake

/-- What the arguments of a command line ask for. -/
def CommandLine.request (arguments : List String) : Except Usage Request := do
  (← Intake.readAll (.options .none) arguments).request

end FlatRecord
