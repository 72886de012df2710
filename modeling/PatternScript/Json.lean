import PatternScript.Number.Binary64

/-!
Contract: values of the data format that results and settings are exchanged in.

Whole numbers and floating-point numbers are different values, as they are different texts. The
fields of an object keep the order in which they are written.

Owns: the values.
Does not own: their text, and which values mean a result or a setting.
-/

namespace PatternScript

/-- A value of the data format. -/
inductive Json where
  | null
  | bool (value : Bool)
  | integer (value : Int)
  | float (value : Binary64)
  | string (value : String)
  | array (items : List Json)
  | object (fields : List (String × Json))
deriving Repr, Inhabited

namespace Json

/-- A floating-point number as a value; numbers that are not finite have no text and become
null. -/
def ofBinary64 (value : Binary64) : Json :=
  if value.isFinite then .float value else .null

/-- Formats with dates write a date as an object with its text under this name. -/
def dateField : String := "$__toml_private_datetime"

/-- A natural number as a value. -/
def ofNat (value : Nat) : Json :=
  .integer value

end Json

end PatternScript
