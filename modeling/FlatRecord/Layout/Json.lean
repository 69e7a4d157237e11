import FlatRecord.Layout
import FlatRecord.Text.Quoted

/-!
# Layouts as JSON

A layout is printed as a JSON object over several lines, each level of nesting
two spaces deeper than the one around it.
-/

namespace FlatRecord

open Text (quote)

/-- Puts a comma behind every line but the last of a list of items, each of them
lines of its own. -/
def separated : List (List String) → List String
  | [] => []
  | [item] => item
  | item :: rest => item.dropLast ++ item.getLast?.toList.map (· ++ ",") ++ separated rest

/-- Lines, one level deeper. -/
def deeper (lines : List String) : List String := lines.map ("  " ++ ·)

/-- A slot, as the lines of a JSON object. -/
def Slot.jsonLines (s : Slot) : List String :=
  ["\x7b",
   "  \"name\": " ++ quote s.name ++ ",",
   "  \"offset\": " ++ s.offset.repr ++ ",",
   "  \"padding\": " ++ s.padding.repr ++ ",",
   "  \"width\": " ++ s.width.repr ++ ",",
   "  \"align\": " ++ s.align.repr,
   "\x7d"]

namespace Layout

/-- A layout, as the lines of a JSON object. -/
def jsonLines (l : Layout) : List String :=
  ["\x7b",
   "  \"record\": " ++ quote l.record ++ ","]
    ++ (if l.slots.isEmpty then ["  \"fields\": [],"]
      else
        ["  \"fields\": ["]
          ++ deeper (deeper (separated (l.slots.map Slot.jsonLines)))
          ++ ["  ],"])
    ++ ["  \"buffer_size\": " ++ l.bufferSize.repr,
        "\x7d"]

/-- A layout as JSON, its last line ended as well. -/
def json (l : Layout) : String := String.join (l.jsonLines.map (· ++ "\n"))

end Layout

end FlatRecord
