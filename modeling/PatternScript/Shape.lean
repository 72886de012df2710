import PatternScript.Script.Node
import PatternScript.Source.SourceText

/-!
Contract: the shapes of syntax nodes that matter to the transpiler.

Owns: shapes, and the shape of a node among the nodes above it.
Does not own: what is done with a shape.
-/

namespace PatternScript

open Script

/-- The quotes of a string literal. -/
inductive Quote where
  | double
  | single
deriving DecidableEq, Repr

/-- How the function of a call is given. -/
inductive Callee where
  /-- By its name. -/
  | identifier (name : String)
  /-- As a member of an object. -/
  | member (property : String)
  /-- In any other way. -/
  | other
deriving DecidableEq, Repr

/-- The parts of a call. -/
structure CallParts where
  range : ByteRange
  function : Node
  arguments : Node

namespace CallParts

/-- The arguments, comments excluded. -/
def values (parts : CallParts) : List Node :=
  parts.arguments.values

/-- The bytes between the parentheses, unless they are adjacent. Comments count. -/
def inner? (parts : CallParts) : Option ByteRange :=
  let range := parts.arguments.range
  let inner : ByteRange := ⟨range.start + 1, range.stop - 1⟩
  if inner.start < inner.stop then some inner else none

end CallParts

/-- The shape of a node. -/
inductive Shape where
  /-- A template literal with a tag; only a tag that is a name has a text. -/
  | taggedTemplate (tag : Option String) (template : Node)
  /-- A template literal; it may be the one that belongs to a tag. -/
  | templateString (tagged : Bool)
  /-- A string literal. -/
  | stringLiteral (quote : Quote)
  /-- A call. -/
  | call (callee : Callee) (parts : CallParts) (awaited : Bool)
  /-- A statement with a label, and the expression it labels if it is an expression statement. -/
  | labeledStatement (label : String) (expression : Option Node)
  /-- Anything else. -/
  | other

namespace Shape

/-- How the function of a call is given. -/
def calleeOf (source : SourceText) (function : Node) : Callee :=
  match function.kind with
  | .identifier => .identifier (source.text function.range)
  | .memberExpression =>
      match function.child? .property with
      | some property => .member (source.text property.range)
      | none => .other
  | _ => .other

/-- The shape of a call. -/
def ofCall (source : SourceText) (parent : Option Node) (node : Node) : Shape :=
  match node.child? .function, node.child? .arguments with
  | some function, some arguments =>
      if arguments.kind = .templateString then
        let tag :=
          if function.kind = .identifier then some (source.text function.range) else none
        .taggedTemplate tag arguments
      else
        .call (calleeOf source function) ⟨node.range, function, arguments⟩
          (parent.any fun above => above.kind == .awaitExpression)
  | _, _ => .other

/-- The node is the template literal of a tag. -/
def isTagged (parent : Option Node) (node : Node) : Bool :=
  node.role == some .arguments && parent.any fun above => above.kind == .callExpression

/-- The shape of a labelled statement. -/
def ofLabeled (source : SourceText) (node : Node) : Shape :=
  match node.child? .label, node.child? .body with
  | some label, some body =>
      let expression :=
        if body.kind = .expressionStatement then body.values.head? else none
      .labeledStatement (source.text label.range) expression
  | _, _ => .other

/-- The shape of a node below a parent. -/
def of (source : SourceText) (parent : Option Node) (node : Node) : Shape :=
  match node.kind with
  | .callExpression => ofCall source parent node
  | .templateString => .templateString (isTagged parent node)
  | .string =>
      match source.slice node.range with
      | '"' :: _ => .stringLiteral .double
      | _ => .stringLiteral .single
  | .labeledStatement => ofLabeled source node
  | _ => .other

end Shape

/-- The raw text of a template literal up to its first substitution. -/
def firstQuasi (source : SourceText) (template : Node) : List Char :=
  let stop :=
    match template.values.find? fun child => child.kind == .templateSubstitution with
    | some substitution => substitution.start
    | none => template.stop - 1
  source.slice ⟨template.start + 1, stop⟩

end PatternScript
