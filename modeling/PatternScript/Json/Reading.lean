import PatternScript.Json
import PatternScript.Number.Reading

/-!
Contract: the value of a text in the data format.

Fields come out in the order of their names, and of two fields of one name the later counts. A
number is whole if it is written without point and exponent and fits into 64 bits.

Owns: reading a text.
Does not own: what the value means.
-/

namespace PatternScript.Json

/-- A reader of the beginning of a text: what it has read, and the rest. -/
abbrev TextReader (α : Type) := List Char → Option (α × List Char)

/-- Blanks of the data format. -/
def isJsonBlank (c : Char) : Bool :=
  c == ' ' || c == '\n' || c == '\r' || c == '\t'

/-- The text without its leading blanks. -/
def skipBlanks (text : List Char) : List Char :=
  text.dropWhile isJsonBlank

/-- The value of a hexadecimal digit. -/
def hexValue? (c : Char) : Option Nat :=
  if '0' ≤ c ∧ c ≤ '9' then some (c.toNat - '0'.toNat)
  else if 'a' ≤ c ∧ c ≤ 'f' then some (c.toNat - 'a'.toNat + 10)
  else if 'A' ≤ c ∧ c ≤ 'F' then some (c.toNat - 'A'.toNat + 10)
  else none

/-- Four hexadecimal digits. -/
def readUnit : TextReader Nat
  | first :: second :: third :: fourth :: rest => do
      let value := 16 * (16 * (16 * (← hexValue? first) + (← hexValue? second)) +
        (← hexValue? third)) + (← hexValue? fourth)
      return (value, rest)
  | _ => none

/-- A character given by one unit of sixteen bits, or by two. -/
def readUnits (text : List Char) : Option (Char × List Char) := do
  let (high, rest) ← readUnit text
  if 0xD800 ≤ high ∧ high < 0xDC00 then
    match rest with
    | '\\' :: 'u' :: more =>
        let (low, rest) ← readUnit more
        if 0xDC00 ≤ low ∧ low < 0xE000 then
          return (Char.ofNat (0x10000 + (high - 0xD800) * 0x400 + (low - 0xDC00)), rest)
        else none
    | _ => none
  else if 0xDC00 ≤ high ∧ high < 0xE000 then none
  else return (Char.ofNat high, rest)

/-- The character that an escape other than a number stands for. -/
def escaped? : Char → Option Char
  | '"' => some '"'
  | '\\' => some '\\'
  | '/' => some '/'
  | 'b' => some '\x08'
  | 'f' => some '\x0c'
  | 'n' => some '\n'
  | 'r' => some '\r'
  | 't' => some '\t'
  | _ => none

/-- The rest of a string behind its opening quote, for at most `limit` characters. -/
def readString : (limit : Nat) → TextReader (List Char)
  | 0, _ => none
  | _ + 1, [] => none
  | _ + 1, '"' :: rest => some ([], rest)
  | limit + 1, '\\' :: 'u' :: rest => do
      let (c, rest) ← readUnits rest
      let (more, rest) ← readString limit rest
      return (c :: more, rest)
  | limit + 1, '\\' :: escape :: rest => do
      let c ← escaped? escape
      let (more, rest) ← readString limit rest
      return (c :: more, rest)
  | limit + 1, c :: rest =>
      if c = '\\' ∨ c.toNat < 0x20 then none
      else do
        let (more, rest) ← readString limit rest
        return (c :: more, rest)

/-- The characters a number is made of. -/
def isNumberChar (c : Char) : Bool :=
  c.isDigit || c == '-' || c == '+' || c == '.' || c == 'e' || c == 'E'

/-- The value of the digits of a whole number, which is negative zero if it is a zero with a
sign. -/
def wholeNumber (negative : Bool) (digits : Nat) : Json :=
  if negative ∧ digits = 0 then .float (.zero true)
  else if negative ∧ digits ≤ Nat.pow 2 63 then .integer (-(digits : Int))
  else if ¬ negative ∧ digits < Nat.pow 2 64 then .integer digits
  else .float (Binary64.ofFraction negative digits 1)

/-- A number. -/
def readNumber (text : List Char) : Option (Json × List Char) :=
  let body := text.takeWhile isNumberChar
  let rest := text.dropWhile isNumberChar
  let (negative, digits) := match body with
    | '-' :: digits => (true, digits)
    | digits => (false, digits)
  if !digits.isEmpty && digits.all Char.isDigit then
    some (wholeNumber negative (Binary64.digitsValue digits), rest)
  else (Binary64.read? body).map fun value => (.float value, rest)

/-- Puts a field among fields in the order of their names. -/
def putField (name : String) (value : Json) : List (String × Json) → List (String × Json)
  | [] => [(name, value)]
  | (other, held) :: rest =>
      if name = other then (name, value) :: rest
      else if name < other then (name, value) :: (other, held) :: rest
      else (other, held) :: putField name value rest

/-- Values one inside the other are read at most `limit` deep, as are the items and fields of one
value. -/
inductive Part where
  | value
  | items
  | fields

/-- A part of a text: a value, or what is left of an array or object behind its opening bracket or
one of its commas. The answer of the latter two is an array or object. -/
def readPart : (limit : Nat) → Part → TextReader Json
  | 0, _, _ => none
  | limit + 1, .value, text =>
      match skipBlanks text with
      | '"' :: rest => do
          let (chars, rest) ← readString (rest.length + 1) rest
          return (.string (String.ofList chars), rest)
      | '[' :: rest =>
          match skipBlanks rest with
          | ']' :: rest => some (.array [], rest)
          | rest => readPart limit .items rest
      | '\x7b' :: rest =>
          match skipBlanks rest with
          | '\x7d' :: rest => some (.object [], rest)
          | rest => readPart limit .fields rest
      | 'n' :: 'u' :: 'l' :: 'l' :: rest => some (.null, rest)
      | 't' :: 'r' :: 'u' :: 'e' :: rest => some (.bool true, rest)
      | 'f' :: 'a' :: 'l' :: 's' :: 'e' :: rest => some (.bool false, rest)
      | rest => readNumber rest
  | limit + 1, .items, text => do
      let (item, rest) ← readPart limit .value text
      match skipBlanks rest with
      | ']' :: rest => return (.array [item], rest)
      | ',' :: rest =>
          match ← readPart limit .items rest with
          | (.array items, rest) => return (.array (item :: items), rest)
          | _ => none
      | _ => none
  | limit + 1, .fields, text => do
      match skipBlanks text with
      | '"' :: rest =>
          let (name, rest) ← readString (rest.length + 1) rest
          match skipBlanks rest with
          | ':' :: rest =>
              let (value, rest) ← readPart limit .value rest
              match skipBlanks rest with
              | '\x7d' :: rest => return (.object [(String.ofList name, value)], rest)
              | ',' :: rest =>
                  match ← readPart limit .fields rest with
                  | (.object fields, rest) =>
                      let name := String.ofList name
                      let known := fields.any fun field => field.1 == name
                      return (.object (if known then fields else putField name value fields), rest)
                  | _ => none
              | _ => none
          | _ => none
      | _ => none

/-- The value of a text. -/
def read? (text : List Char) : Option Json := do
  let (value, rest) ← readPart (text.length + 1) .value text
  if (skipBlanks rest).isEmpty then some value else none

end PatternScript.Json
