import PatternScript.Json
import PatternScript.Number.Reading
import PatternScript.Toml.Reader

/-!
Contract: strings, numbers, truth values and dates of a settings text.

Strings have four forms: in one line or over several, with escapes or without. Whole numbers have 64
bits, and underscores may stand between digits. A date stands for itself under a reserved name.

Owns: reading values that hold no other values.
Does not own: arrays, tables and keys.
-/

namespace PatternScript.Toml

open Reader

/-! ## Strings -/

/-- The value of hexadecimal digits, if all are. -/
def hexValue? (digits : List Char) : Option Nat :=
  digits.foldlM (fun value c =>
    if c.isDigit then some (value * 16 + (c.toNat - '0'.toNat))
    else if 'a' ≤ c ∧ c ≤ 'f' then some (value * 16 + (c.toNat - 'a'.toNat + 10))
    else if 'A' ≤ c ∧ c ≤ 'F' then some (value * 16 + (c.toNat - 'A'.toNat + 10))
    else none) 0

/-- A character given by a number of hexadecimal digits. -/
def codePoint (length : Nat) : Reader Char := fun text =>
  let digits := text.take length
  if digits.length < length then none
  else
    match hexValue? digits with
    | some code => if code.isValidChar then some (Char.ofNat code, text.drop length) else none
    | none => none

/-- What stands behind a backslash. -/
def escape : Reader Char := do
  match ← char fun _ => true with
  | 'b' => return '\x08'
  | 't' => return '\t'
  | 'n' => return '\n'
  | 'f' => return '\x0c'
  | 'r' => return '\r'
  | '"' => return '"'
  | '\\' => return '\\'
  | 'u' => codePoint 4
  | 'U' => codePoint 8
  | _ => failure

/-- A character of a string with escapes in one line. -/
def basicChar : Reader Char := do
  let c ← char fun c => isInLine c && c != '"'
  if c = '\\' then escape else return c

/-- A string with escapes in one line. -/
def basicString : Reader (List Char) := do
  exactly ['"']
  let text ← many basicChar
  exactly ['"']
  return text

/-- A string without escapes in one line. -/
def literalString : Reader (List Char) := do
  exactly ['\'']
  let text ← chars fun c => isInLine c && c != '\''
  exactly ['\'']
  return text

/-- A line end inside a string. -/
def lineEndChar : Reader (List Char) := do
  newline
  return ['\n']

/-- A backslash at the end of a line, which joins the line with the next text. -/
def lineJoin : Reader (List Char) := do
  exactly ['\\']
  blanks
  newline
  let _ ← many ((do let _ ← char isLineBlank) <|> newline)
  return []

/-- One or two quotes that do not end a string of several lines. -/
def innerQuotes (quote : Char) : Reader (List Char) := fun text =>
  let count := (text.takeWhile (· == quote)).length
  if count = 1 ∨ count = 2 then some (List.replicate count quote, text.drop count) else none

/-- The end of a string of several lines, and the one or two quotes that may stand before it. -/
def closingQuotes (quote : Char) : Reader (List Char) := fun text =>
  let count := (text.takeWhile (· == quote)).length
  if 3 ≤ count ∧ count ≤ 5 then some (List.replicate (count - 3) quote, text.drop count) else none

/-- A string of several lines, given what may stand in it apart from quotes and line ends. A line
end right behind the opening quotes does not count. -/
def longString (quote : Char) (piece : Reader (List Char)) : Reader (List Char) := do
  exactly (List.replicate 3 quote)
  let _ ← maybe newline
  let pieces ← many (lineEndChar <|> piece <|> innerQuotes quote)
  let last ← closingQuotes quote
  return pieces.flatten ++ last

/-- A string with escapes over several lines. -/
def longBasicString : Reader (List Char) :=
  longString '"' (lineJoin <|> do return [← basicChar])

/-- A string without escapes over several lines. -/
def longLiteralString : Reader (List Char) :=
  longString '\'' do return [← char fun c => isInLine c && c != '\'']

/-- A string. -/
def stringText : Reader (List Char) :=
  longBasicString <|> basicString <|> longLiteralString <|> literalString

/-! ## Numbers -/

/-- Digits of a class, with single underscores between them. -/
def digitRun (accepts : Char → Bool) : Reader (List Char) := do
  let first ← char accepts
  let others ← many do
    let _ ← maybe (exactly ['_'])
    char accepts
  return first :: others

/-- A sign, if there is one. -/
def sign : Reader (List Char) := do
  let found ← maybe (char fun c => c == '+' || c == '-')
  return found.toList

/-- Decimal digits without a leading zero. -/
def wholeDigits : Reader (List Char) := do
  let digits ← digitRun Char.isDigit
  ensure (digits.head? != some '0' || digits.length == 1)
  return digits

/-- A whole number of 64 bits. -/
def boundedInteger (value : Int) : Reader Json := do
  ensure (-Int.pow 2 63 ≤ value && value < Int.pow 2 63)
  return .integer value

/-- Digits of a base that is not ten. -/
def basedInteger (mark : Char) (base : Nat) (accepts : Char → Bool) : Reader Json := do
  exactly ['0', mark]
  let digits ← digitRun accepts
  let value := digits.foldl (fun value c => value * base + (hexValue? [c]).getD 0) 0
  boundedInteger value

/-- A digit of the base sixteen. -/
def isHexDigit (c : Char) : Bool :=
  (hexValue? [c]).isSome

/-- A whole number. -/
def integer : Reader Json :=
  basedInteger 'x' 16 isHexDigit <|>
    basedInteger 'o' 8 (fun c => '0' ≤ c && c ≤ '7') <|>
    basedInteger 'b' 2 (fun c => c == '0' || c == '1') <|> do
  let sign ← sign
  let value : Int := Binary64.digitsValue (← wholeDigits)
  boundedInteger (if sign = ['-'] then -value else value)

/-- A fraction with its point. -/
def fraction : Reader (List Char) := do
  exactly ['.']
  return '.' :: (← digitRun Char.isDigit)

/-- An exponent with its mark. -/
def exponent : Reader (List Char) := do
  let _ ← char fun c => c == 'e' || c == 'E'
  let sign ← sign
  return 'e' :: sign ++ (← digitRun Char.isDigit)

/-- A floating-point number with digits. One that is too large is refused. -/
def digitFloat : Reader Json := do
  let sign ← sign
  let whole ← wholeDigits
  let rest ← exponent <|> do
    let fraction ← fraction
    let exponent ← maybe exponent
    return fraction ++ exponent.getD []
  match Binary64.read? (sign ++ whole ++ rest) with
  | some value =>
      ensure (value != .infinity false)
      return .float value
  | none => failure

/-- A number that is not finite, by its name. -/
def namedFloat : Reader Json := do
  let sign ← sign
  let value ← (do exactly "inf".toList; return Binary64.infinity (sign == ['-'])) <|>
    (do exactly "nan".toList; return Binary64.nan)
  return .float value

/-! ## Dates -/

/-- A number of digits whose value lies within bounds. -/
def boundedDigits (length least greatest : Nat) : Reader (List Char) := fun text =>
  let digits := text.take length
  let value := Binary64.digitsValue digits
  if digits.length = length ∧ digits.all Char.isDigit ∧ least ≤ value ∧ value ≤ greatest then
    some (digits, text.drop length)
  else none

/-- The number of days of a month. -/
def daysInMonth (year month : Nat) : Nat :=
  if month = 2 then
    if (year % 4 = 0 ∧ year % 100 ≠ 0) ∨ year % 400 = 0 then 29 else 28
  else if [4, 6, 9, 11].contains month then 30
  else 31

/-- A day. -/
def date : Reader (List Char) := do
  let year ← boundedDigits 4 0 9999
  exactly ['-']
  let month ← boundedDigits 2 1 12
  exactly ['-']
  let limit := daysInMonth (Binary64.digitsValue year) (Binary64.digitsValue month)
  let day ← boundedDigits 2 1 limit
  return year ++ '-' :: month ++ '-' :: day

/-- The parts of a second that count: nine digits at most, and no zeros at the end. -/
def secondFraction : Reader (List Char) := do
  exactly ['.']
  let first ← char Char.isDigit
  let digits := (first :: (← chars Char.isDigit)).take 9
  let counting := (digits.reverse.dropWhile (· == '0')).reverse
  return if counting.isEmpty then [] else '.' :: counting

/-- A time of day. -/
def timeOfDay : Reader (List Char) := do
  let hour ← boundedDigits 2 0 23
  exactly [':']
  let minute ← boundedDigits 2 0 59
  exactly [':']
  let second ← boundedDigits 2 0 60
  let part ← maybe secondFraction
  return hour ++ ':' :: minute ++ ':' :: second ++ part.getD []

/-- The distance from universal time. -/
def zone : Reader (List Char) :=
  (do let _ ← char fun c => c == 'Z' || c == 'z'
      return ['Z']) <|> do
    let sign ← char fun c => c == '+' || c == '-'
    let hour ← boundedDigits 2 0 23
    exactly [':']
    let minute ← boundedDigits 2 0 59
    return sign :: hour ++ ':' :: minute

/-- A day, a day with a time, or a time. -/
def moment : Reader Json := do
  let text ← (do
    let day ← date
    let time ← maybe do
      let _ ← char fun c => c == 'T' || c == 't' || c == ' '
      let time ← timeOfDay
      let zone ← maybe zone
      return 'T' :: time ++ zone.getD []
    return day ++ time.getD []) <|> timeOfDay
  return .object [(Json.dateField, .string (String.ofList text))]

/-! ## All of them -/

/-- A truth value. -/
def truth : Reader Json :=
  (do exactly "true".toList; return .bool true) <|> (do exactly "false".toList; return .bool false)

/-- A value that holds no other values. -/
def scalar : Reader Json :=
  (do return .string (String.ofList (← stringText))) <|> truth <|> moment <|> digitFloat <|>
    namedFloat <|> integer

end PatternScript.Toml
