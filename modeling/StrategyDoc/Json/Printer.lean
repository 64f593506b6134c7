import StrategyDoc.Json.Number
import StrategyDoc.Json.Quoted

/-! # Writing JSON

A value is written in one of two layouts.  The compact layout has no blanks; the indented
one puts every item and member on a line of its own, two spaces deeper than its array or
object, and a space after each colon.  Both write an empty array or object in two
characters and keep members in their given order. -/

namespace StrategyDoc.Json

/-- Where the blanks of a text stand. -/
structure Layout where
  /-- The blanks between the items at a nesting depth. -/
  lineBreak : Nat → String
  /-- The separator of a name and its value. -/
  colon : String

/-- No blanks at all. -/
def Layout.compact : Layout where
  lineBreak _ := ""
  colon := ":"

/-- One line for each item and member. -/
def Layout.indented : Layout where
  lineBreak depth := String.ofList ('\n' :: List.replicate (2 * depth) ' ')
  colon := ": "

/-- Enclose the texts of items that stand one level below the given depth. -/
def Layout.enclose (layout : Layout) (depth : Nat) (opening closing : String)
    (items : List String) : String :=
  if items.isEmpty then opening ++ closing
  else
    opening ++ layout.lineBreak (depth + 1)
      ++ ("," ++ layout.lineBreak (depth + 1)).intercalate items
      ++ layout.lineBreak depth ++ closing

mutual

/-- The text of a value whose own line is at the given depth. -/
def write (layout : Layout) (depth : Nat) : Json → String
  | .null => "null"
  | .bool true => "true"
  | .bool false => "false"
  | .number n => String.ofList n.text
  | .string s => String.ofList (quote s)
  | .array items => layout.enclose depth "[" "]" (writeItems layout (depth + 1) items)
  | .object members =>
    layout.enclose depth "\x7b" "\x7d" (writeMembers layout (depth + 1) members)

/-- The texts of the items of an array. -/
def writeItems (layout : Layout) (depth : Nat) : List Json → List String
  | [] => []
  | item :: rest => write layout depth item :: writeItems layout depth rest

/-- The texts of the members of an object. -/
def writeMembers (layout : Layout) (depth : Nat) : List (String × Json) → List String
  | [] => []
  | (name, value) :: rest =>
    (String.ofList (quote name) ++ layout.colon ++ write layout depth value)
      :: writeMembers layout depth rest

end

/-- The text of a value without blanks. -/
def compact (value : Json) : String := value.write .compact 0

/-- The text of a value over several lines. -/
def indented (value : Json) : String := value.write .indented 0

end StrategyDoc.Json
