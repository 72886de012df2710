import PatternScript.Script.Kind
import PatternScript.Source.Span

/-!
Contract: the syntax tree of a program.

A node has a kind, the bytes it covers, the part it plays in its parent where that matters, and its
children in source order. Punctuation has no nodes. Nothing is assumed of a tree here: the
functions below answer for every tree, whoever built it.

Owns: the tree, its parts, the values among a node's children, and the first fault in a tree.
Does not own: where the tree comes from.
-/

namespace PatternScript.Script

/-- The part a child plays in its parent, where other parts of the library ask for it. -/
inductive Role where
  | function
  | arguments
  | property
  | label
  | body
deriving DecidableEq, Repr

/-- A node of a syntax tree. -/
inductive Node where
  | mk (kind : Kind) (role : Option Role) (range : ByteRange) (children : List Node)
deriving Repr, Inhabited

namespace Node

/-- The kind of the node. -/
def kind : Node → Kind
  | .mk kind _ _ _ => kind

/-- The part the node plays in its parent. -/
def role : Node → Option Role
  | .mk _ role _ _ => role

/-- The bytes the node covers. -/
def range : Node → ByteRange
  | .mk _ _ range _ => range

/-- The children in source order. -/
def children : Node → List Node
  | .mk _ _ _ children => children

/-- The byte at which the node starts. -/
def start (node : Node) : Nat :=
  node.range.start

/-- The byte just past the node. -/
def stop (node : Node) : Nat :=
  node.range.stop

/-- The same node in another role. -/
def withRole (role : Role) : Node → Node
  | .mk kind _ range children => .mk kind (some role) range children

/-- The same node with another kind. -/
def withKind (kind : Kind) : Node → Node
  | .mk _ role range children => .mk kind role range children

/-- The same node with other children. -/
def withChildren (children : List Node) : Node → Node
  | .mk kind role range _ => .mk kind role range children

/-- The first child that plays a part. -/
def child? (node : Node) (role : Role) : Option Node :=
  node.children.find? fun child => child.role == some role

/-- The children that are not comments. -/
def values (node : Node) : List Node :=
  node.children.filter fun child => !child.kind.isExtra

/-- The node marks a fault itself. -/
def isFault (node : Node) : Bool :=
  node.kind.isFault

mutual

/-- The node or a node below it marks a fault. -/
def hasFault : Node → Bool
  | .mk kind _ _ children => kind.isFault || anyFault children

/-- One of the nodes, or a node below one of them, marks a fault. -/
def anyFault : List Node → Bool
  | [] => false
  | node :: rest => hasFault node || anyFault rest

end

mutual

/-- The first node in document order that marks a fault. Subtrees without a fault are passed
over. -/
def firstFault? : Node → Option Node
  | .mk kind role range children =>
      if kind.isFault then some (.mk kind role range children)
      else if hasFault (.mk kind role range children) then firstFaultIn? children
      else none

/-- The first fault in a list of trees. -/
def firstFaultIn? : List Node → Option Node
  | [] => none
  | node :: rest =>
      match firstFault? node with
      | some found => some found
      | none => firstFaultIn? rest

end

mutual

/-- The node and every node below it, each before its children. -/
def preorder : Node → List Node
  | .mk kind role range children => .mk kind role range children :: preorderAll children

/-- The nodes of a list of trees, tree by tree. -/
def preorderAll : List Node → List Node
  | [] => []
  | node :: rest => preorder node ++ preorderAll rest

end

/-- The statements of a program: its values without a hash-bang line. -/
def statements (program : Node) : List Node :=
  program.values.filter fun child => child.kind != .hashBangLine

end Node

end PatternScript.Script
