import PatternScript.Number.Binary64
import PatternScript.Text.Blank

/-!
Contract: reading a floating-point number from text.

The text is a decimal with an optional sign, fraction and exponent, or one of the names of the
numbers that are not finite, in any case. Blanks and underscores anywhere are overlooked where the
number comes from a program.

Owns: the grammar of decimals and the number they denote, correctly rounded.
Does not own: other notations for numbers in programs, which do not denote a number here.
-/

namespace PatternScript.Binary64

/-- The value of decimal digits. -/
def digitsValue (digits : List Char) : Nat :=
  digits.foldl (fun value digit => value * 10 + (digit.toNat - '0'.toNat)) 0

/-- A sign at the start of a text, and the rest. -/
def splitSign : List Char → Bool × List Char
  | '+' :: rest => (false, rest)
  | '-' :: rest => (true, rest)
  | text => (false, text)

/-- The exponent that a text consists of; no text is no exponent. -/
def readExponent? : List Char → Option Int
  | [] => some 0
  | mark :: rest =>
      if mark == 'e' || mark == 'E' then
        let (negative, digits) := splitSign rest
        if digits.isEmpty || !digits.all Char.isDigit then none
        else
          let value : Int := digitsValue digits
          some (if negative then -value else value)
      else none

/-- Whole digits, the digits of the fraction, and the rest. -/
def splitDecimal (text : List Char) : List Char × List Char × List Char :=
  let whole := text.takeWhile Char.isDigit
  match text.dropWhile Char.isDigit with
  | '.' :: rest => (whole, rest.takeWhile Char.isDigit, rest.dropWhile Char.isDigit)
  | rest => (whole, [], rest)

/-- The number that an unsigned text denotes. -/
def readUnsigned? (negative : Bool) (text : List Char) : Option Binary64 :=
  let name := text.map Char.toLower
  if name = "inf".toList ∨ name = "infinity".toList then some (.infinity negative)
  else if name = "nan".toList then some .nan
  else
    let (whole, fraction, rest) := splitDecimal text
    if whole.isEmpty && fraction.isEmpty then none
    else
      match readExponent? rest with
      | some exponent =>
          some (ofDecimal negative (digitsValue (whole ++ fraction)) (exponent - fraction.length))
      | none => none

/-- The number that a text denotes. -/
def read? (text : List Char) : Option Binary64 :=
  let (negative, unsigned) := splitSign text
  readUnsigned? negative unsigned

/-- The number that a part of a program denotes, blanks and underscores overlooked. -/
def ofProgram? (text : List Char) : Option Binary64 :=
  read? (text.filter fun c => c != '_' && !Text.isBlank c)

end PatternScript.Binary64
