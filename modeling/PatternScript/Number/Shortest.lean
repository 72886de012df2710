import PatternScript.Number.Binary64

/-!
Contract: the shortest decimal that reads back as a given number.

Every number is the nearest one to all decimals in an interval around it. Of the decimals in that
interval with the fewest digits the one nearest to the number is taken; of two equally near the one
with the even last digit.

Owns: the digits and the place of the decimal point.
Does not own: how they are written.
-/

namespace PatternScript.Binary64

/-- A positive number and the two ends of the interval of decimals that round to it, over one
denominator. -/
structure Neighbourhood where
  value : Nat
  lower : Nat
  upper : Nat
  denominator : Nat
  /-- The ends round to the number too. -/
  closed : Bool

/-- The neighbourhood of `mantissa * 2 ^ exponent`, in quarters of its last place. The neighbour
below a power of two is nearer than the one above. -/
def neighbourhood (mantissa : Nat) (exponent : Int) : Neighbourhood :=
  let below := if mantissa = Nat.pow 2 52 ∧ leastExponent < exponent then 1 else 2
  let factor := if 0 ≤ exponent then Nat.pow 2 exponent.toNat else 1
  let denominator := if 0 ≤ exponent then 4 else 4 * Nat.pow 2 (-exponent).toNat
  { value := 4 * mantissa * factor
    lower := (4 * mantissa - below) * factor
    upper := (4 * mantissa + 2) * factor
    denominator := denominator
    closed := mantissa % 2 == 0 }

/-- How many digits of a positive fraction stand before the point; for a fraction below one, minus
the number of zeros right behind the point. -/
def pointOf (numerator denominator : Nat) : Int :=
  if denominator ≤ numerator then digitCount (numerator / denominator)
  else
    let digits := digitCount (denominator / numerator)
    if denominator ≤ numerator * Nat.pow 10 (digits - 1) then 2 - (digits : Int) else 1 - (digits : Int)

/-- The best decimal on the grid whose unit is `10 ^ power`, if one lies in the neighbourhood; it is
given in units of the grid. -/
def nearestOnGrid (around : Neighbourhood) (power : Int) : Option Nat :=
  let up := if 0 ≤ power then 1 else Nat.pow 10 (-power).toNat
  let unit := around.denominator * (if 0 ≤ power then Nat.pow 10 power.toNat else 1)
  let value := around.value * up
  let inside := fun candidate : Nat =>
    let scaled := candidate * unit
    if around.closed then around.lower * up ≤ scaled && scaled ≤ around.upper * up
    else around.lower * up < scaled && scaled < around.upper * up
  let below := value / unit
  let above := below + 1
  let prefersBelow :=
    value - below * unit < above * unit - value ||
      (value - below * unit == above * unit - value && below % 2 == 0)
  match inside below, inside above with
  | true, true => some (if prefersBelow then below else above)
  | true, false => some below
  | false, true => some above
  | false, false => none

/-- The digits of a decimal without zeros at its end. -/
def withoutZeros (digits : List Char) : List Char :=
  (digits.reverse.dropWhile (· == '0')).reverse

/-- The shortest decimal with at least `count` digits: its digits and the place of its point. A
decimal that was rounded up to a power of ten has one digit more, and its point moves. -/
def shortestFrom (around : Neighbourhood) (point : Int) : (attempts count : Nat) → List Char × Int
  | 0, _ => ([], point)
  | attempts + 1, count =>
      match nearestOnGrid around (point - count) with
      | some found =>
          let digits := Nat.toDigits 10 found
          (withoutZeros digits, point + (digits.length - count : Nat))
      | none => shortestFrom around point attempts (count + 1)

/-- The digits of the shortest decimal for a positive number, and how many of them stand before the
point. Seventeen digits always suffice. -/
def shortest (mantissa : Nat) (exponent : Int) : List Char × Int :=
  let around := neighbourhood mantissa exponent
  shortestFrom around (pointOf around.value around.denominator) 17 1

end PatternScript.Binary64
