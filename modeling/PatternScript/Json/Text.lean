import PatternScript.Json
import PatternScript.Number.Layout
import PatternScript.Text.Quoted

/-!
Contract: the text of a data value.

The compact text has no blanks. The indented text gives every item and every field a line of its
own, two blanks deeper than what holds it; an empty array or object stays on one line.

Owns: both texts.
Does not own: reading a text.
-/

namespace PatternScript.Json

/-- A text in double quotes. -/
def quoted (text : String) : List Char :=
  Text.quoteDouble text.toList

/-- The text of a value that holds no other values. -/
def atomText : Json → List Char
  | .null => "null".toList
  | .bool true => "true".toList
  | .bool false => "false".toList
  | .integer value => (toString value).toList
  | .float value => ((value.render? .data).getD "null").toList
  | .string value => quoted value
  | .array _ => []
  | .object _ => []

mutual

/-- The compact text of a value. -/
def compact : Json → List Char
  | .array items => '[' :: compactItems items ++ [']']
  | .object fields => '\x7b' :: compactFields fields ++ ['\x7d']
  | atom => atomText atom

/-- Compact items with commas between them. -/
def compactItems : List Json → List Char
  | [] => []
  | [last] => compact last
  | item :: rest => compact item ++ ',' :: compactItems rest

/-- Compact fields with commas between them. -/
def compactFields : List (String × Json) → List Char
  | [] => []
  | [(name, last)] => quoted name ++ ':' :: compact last
  | (name, value) :: rest => quoted name ++ ':' :: compact value ++ ',' :: compactFields rest

end

/-- A new line at a depth. -/
def lineAt (depth : Nat) : List Char :=
  '\n' :: List.replicate (2 * depth) ' '

mutual

/-- The indented text of a value at a depth. -/
def indentedAt (depth : Nat) : Json → List Char
  | .array [] => "[]".toList
  | .array items => '[' :: indentedItems (depth + 1) items ++ lineAt depth ++ [']']
  | .object [] => "\x7b\x7d".toList
  | .object fields => '\x7b' :: indentedFields (depth + 1) fields ++ lineAt depth ++ ['\x7d']
  | atom => atomText atom

/-- Indented items, each on a line of its own. -/
def indentedItems (depth : Nat) : List Json → List Char
  | [] => []
  | [last] => lineAt depth ++ indentedAt depth last
  | item :: rest => lineAt depth ++ indentedAt depth item ++ ',' :: indentedItems depth rest

/-- Indented fields, each on a line of its own. -/
def indentedFields (depth : Nat) : List (String × Json) → List Char
  | [] => []
  | [(name, last)] => lineAt depth ++ quoted name ++ ": ".toList ++ indentedAt depth last
  | (name, value) :: rest =>
      lineAt depth ++ quoted name ++ ": ".toList ++ indentedAt depth value ++
        ',' :: indentedFields depth rest

end

/-- The indented text of a value. -/
def indented (value : Json) : List Char :=
  indentedAt 0 value

end PatternScript.Json
