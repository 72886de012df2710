/-!
Contract: classes of characters given by ranges of code points.

Owns: membership in a list of ranges in ascending order.
Does not own: any particular class.
-/

namespace PatternScript.Text

/-- The code point lies in one of the ranges, which are in ascending order. -/
def inRanges (code : Nat) : List (Nat × Nat) → Bool
  | [] => false
  | (first, last) :: rest => first ≤ code && (code ≤ last || inRanges code rest)

end PatternScript.Text
