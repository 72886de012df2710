import PatternScript.Number.Shortest

/-!
Contract: how a floating-point number is written.

Two layouts are used. Data that another program reads has a point or an exponent in every number,
and an exponent where the positional form would be long. Messages to a person always use the
positional form.

Owns: both layouts.
Does not own: the digits.
-/

namespace PatternScript.Binary64

/-- The decisions of a layout. -/
structure Layout where
  /-- Numbers whose first digit stands for a power of ten from `leastPlain` to `greatestPlain` are
  written without an exponent; without bounds all are. -/
  plain : Option (Int × Int)

/-- Zeros. -/
def zeros (count : Nat) : List Char :=
  List.replicate count '0'

/-- Digits with a point among them, and at least one digit on both sides of it. -/
def positional (digits : List Char) (point : Int) : List Char :=
  if point ≤ 0 then ['0', '.'] ++ zeros (-point).toNat ++ digits
  else
    let whole := point.toNat
    if digits.length ≤ whole then digits ++ zeros (whole - digits.length) ++ ['.', '0']
    else digits.take whole ++ ['.'] ++ digits.drop whole

/-- One digit, the others behind a point, and an exponent with its sign. -/
def scientific (digits : List Char) (power : Int) : List Char :=
  let fraction := match digits.drop 1 with
    | [] => []
    | more => '.' :: more
  let sign := if power < 0 then '-' else '+'
  digits.take 1 ++ fraction ++ ['e', sign] ++ Nat.toDigits 10 power.natAbs

/-- The text of a finite number in a layout; other numbers have none. -/
def render? (layout : Layout) : Binary64 → Option String
  | .finite negative mantissa exponent =>
      let sign := if negative then ['-'] else []
      let (digits, point) := if mantissa = 0 then (['0'], 1) else shortest mantissa exponent
      let power := point - 1
      let isPlain := match layout.plain with
        | some (least, greatest) => mantissa == 0 || (least ≤ power && power ≤ greatest)
        | none => true
      let body := if isPlain then positional digits point else scientific digits power
      some (String.ofList (sign ++ body))
  | _ => none

/-- Numbers in data: positional from `0.00001` to below `10 ^ 16`. -/
def Layout.data : Layout := { plain := some (-5, 15) }

/-- Numbers in messages: always positional. -/
def Layout.message : Layout := { plain := none }

end PatternScript.Binary64
