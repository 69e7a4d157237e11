import FlatRecord.Event

/-!
# Log filters

Which events reach the log is set from outside by a short text: a level, which
lets through all events at that level and those that matter more, or `off`; or a
target and a level, `part=level`, which lets through only the events of the parts
whose names begin so. Anything else, and no text at all, stands for the level
`info`.
-/

namespace FlatRecord

/-- A choice of events. -/
structure LogFilter where
  /-- How the targets of the events begin. -/
  target : String
  /-- The last level that passes; without one nothing does. -/
  level : Option Level
deriving DecidableEq, Repr

namespace LogFilter

/-- The filter that lets through what matters to a user. -/
def default : LogFilter := ⟨"", some .info⟩

/-- The last level that passes under a name, or nothing passing at all. -/
def levelOfName? (name : List Char) : Option (Option Level) :=
  [("off", none), ("error", some Level.error), ("warn", some Level.warn),
   ("info", some Level.info), ("debug", some Level.debug), ("trace", some Level.trace)].lookup
    (String.ofList (name.map Char.toLower))

/-- Reads a filter. -/
def ofText (text : String) : LogFilter :=
  let cs := text.toList
  match levelOfName? cs with
  | some level => ⟨"", level⟩
  | none =>
    let target := cs.takeWhile (· != '=')
    match levelOfName? (cs.drop (target.length + 1)) with
    | some level => ⟨String.ofList target, level⟩
    | none => .default

/-- Whether an event passes. -/
def passes (f : LogFilter) (e : Event) : Bool :=
  f.target.toList.isPrefixOf e.target.toList && f.level.any (e.level.rank ≤ ·.rank)

end LogFilter

end FlatRecord
