import PatternScript.Script.Node

/-!
Contract: reading an expression as a destructuring pattern.

An array or object literal turns out to be a pattern only when what follows it is read: an equals
sign, an arrow, the head of a loop. The literal is therefore read in a form that covers both, and
turned into a pattern afterwards. The one form that is legal in a pattern and not in a literal is a
shorthand property with a default; a literal that holds one is *pending* until it becomes a
pattern.

Owns: pending literals and the passage from expressions to patterns and parameters.
Does not own: the reading itself.
-/

namespace PatternScript.Script.Node

mutual

/-- The literal is only legal as a pattern. -/
def isPending : Node → Bool
  | .mk .object _ _ children => anyPending children
  | .mk .array _ _ children => anyPending children
  | .mk .pair _ _ children => anyPending children
  | .mk .spreadElement _ _ children => anyPending children
  | .mk .objectAssignmentPattern _ _ _ => true
  | _ => false

/-- One of the nodes is only legal as a pattern. -/
def anyPending : List Node → Bool
  | [] => false
  | node :: rest => isPending node || anyPending rest

end

/-- The node can be assigned to as it stands. -/
def isPlace (node : Node) : Bool :=
  match node.kind with
  | .identifier | .undefined | .memberExpression | .subscriptExpression | .objectPattern
  | .arrayPattern => true
  | _ => false

mutual

/-- The expression as a target of an assignment. -/
def toPattern? : Node → Option Node
  | .mk .array role range children => do
      return .mk .arrayPattern role range (← toElements? children)
  | .mk .object role range children => do
      return .mk .objectPattern role range (← toElements? children)
  | node => if node.isPlace then some node else none

/-- A member of a literal, or an item of a parameter list, as part of a pattern. -/
def toElement? : Node → Option Node
  | .mk .assignmentExpression role range [target, value] =>
      if target.isPlace then some (.mk .assignmentPattern role range [target, value]) else none
  | .mk .spreadElement role range [target] => do
      return .mk .restPattern role range [← toPattern? target]
  | .mk .pair role range [key, value] => do
      return .mk .pairPattern role range [key, ← toElement? value]
  | .mk .shorthandPropertyIdentifier role range children =>
      some (.mk .shorthandPropertyIdentifierPattern role range children)
  | .mk .objectAssignmentPattern role range children =>
      some (.mk .objectAssignmentPattern role range children)
  | .mk .array role range children => do
      return .mk .arrayPattern role range (← toElements? children)
  | .mk .object role range children => do
      return .mk .objectPattern role range (← toElements? children)
  | node => if node.isPlace then some node else none

/-- The members of a literal as parts of a pattern. -/
def toElements? : List Node → Option (List Node)
  | [] => some []
  | node :: rest => do return (← toElement? node) :: (← toElements? rest)

end

end PatternScript.Script.Node
