import PatternScript.Transpile.Pass

/-!
Contract: transpiling by rebuilding the tree.

The reference for the text of a transpiled program: a recursive rewriter that walks the tree in the
order of the text, counts the controls on the way, and answers for every node with the text that
takes its place. A node without a rule keeps its own text around the texts of its children.

Owns: rewritten trees, the text each rule asks for, and the rewriter.
Does not own: replacements of byte ranges, which it does without.
-/

namespace PatternScript

open Script

/-- A node with the text that takes its place, and the nodes below it that were rewritten for it. -/
inductive Rewritten where
  | mk (node : Node) (text : List Char) (parts : List Rewritten)

namespace Rewritten

/-- The node itself. -/
def node : Rewritten → Node
  | .mk node _ _ => node

/-- The text that takes its place. -/
def text : Rewritten → List Char
  | .mk _ text _ => text

/-- Its children, if they were rewritten. -/
def parts : Rewritten → List Rewritten
  | .mk _ _ parts => parts

/-- The text of a part of the program in which the texts of some nodes have taken their places. -/
def weave (source : SourceText) (start stop : Nat) : List Rewritten → List Char
  | [] => source.slice ⟨start, stop⟩
  | part :: rest =>
      source.slice ⟨start, part.node.start⟩ ++ part.text ++ weave source part.node.stop stop rest

/-- The text of the first of some nodes that plays a part. -/
def textOf (role : Role) (parts : List Rewritten) : List Char :=
  match parts.find? fun part => part.node.role == some role with
  | some part => part.text
  | none => []

end Rewritten

namespace Rewriting

/-- A call with a literal and the offset of its text. -/
def literalCall (callee : String) (literal : List Char) (offset : Nat) : List Char :=
  callee.toList ++ "(".toList ++ literal ++ ", ".toList ++ Nat.toDigits 10 offset ++ ")".toList

/-- A call whose first argument is an identifier. The other arguments lose their leading blanks and
are left out with their comma if nothing remains. -/
def identifiedCall (callee : List Char) (id : String) (given : List Char) : List Char :=
  let rest := Text.trimLeft given
  callee ++ "(".toList ++ Text.quoteSingle id.toList ++
    (if rest.isEmpty then [] else ", ".toList ++ rest) ++ ")".toList

/-- The text between the first and the last character. -/
def betweenParentheses (text : List Char) : List Char :=
  text.tail.dropLast

/-- The text in parentheses, unless it can do without. -/
def parenthesizedUnless (bare : Bool) (text : List Char) : List Char :=
  if bare then text else "(".toList ++ text ++ ")".toList

/-- The awaited text. -/
def awaited (standsAlone : Bool) (call : List Char) : List Char :=
  parenthesizedUnless standsAlone ("await ".toList ++ call)

/-- A named expression: a call of its method `p` with the name. -/
def named (memberSafe : Bool) (expression : List Char) (name : String) : List Char :=
  parenthesizedUnless memberSafe expression ++ ".p(".toList ++ Text.quoteDouble name.toList ++
    ")".toList

/-- A labelled expression statement: the expression named by the label, and what follows the
expression in the program. -/
def labeled (source : SourceText) (stop : Nat) (label : String) (parts : List Rewritten) :
    List Char :=
  match parts.dropWhile fun part => part.node.role != some .body with
  | [] => []
  | body :: behind =>
      match body.parts.dropWhile fun part => part.node.kind.isExtra with
      | [] => []
      | expression :: after =>
          named expression.node.kind.isMemberSafe expression.text label ++
            Rewritten.weave source expression.node.stop body.node.stop after ++
            Rewritten.weave source body.node.stop stop behind

end Rewriting

open Rewritten Rewriting

/-- How the text that takes the place of a node is made. -/
inductive Manner where
  /-- As a whole; nothing inside the node is rewritten. -/
  | fold (text : List Char)
  /-- From the rewritten children. -/
  | build (text : List Rewritten → List Char)

/-- The text that a literal without a tag asks for. One that holds a resource address stays. -/
def Manner.ofLiteral (context : PassContext) (node : Node) (value literal : List Char) : Manner :=
  if holdsScheme value then .build (weave context.source node.start node.stop)
  else
    let callee := (context.registry.defaultLanguage?.bind Language.callName).getD
      Language.patternCall
    .fold (literalCall callee literal (context.source.charOffset node.start))

/-- The text that a template literal with a tag asks for. -/
def Manner.ofTagged (context : PassContext) (callee : String) (template : Node) : Manner :=
  .fold (literalCall callee (Text.quoteDouble (firstQuasi context.source template))
    (context.source.charOffset (template.start + 1)))

/-- The text that a node asks for, and the counters afterwards. -/
def Manner.of (context : PassContext) (ancestors : List Node) (node : Node)
    (counters : WidgetCounters) : Manner × WidgetCounters :=
  let source := context.source
  let kept := Manner.build (weave source node.start node.stop)
  match Rule.select? context.registry (Shape.of source ancestors.head? node) with
  | none => (kept, counters)
  | some (.subLanguage tag template) =>
      let callee := ((context.registry.language? tag).bind Language.callName).getD tag
      (.ofTagged context callee template, counters)
  | some (.tidal template) => (.ofTagged context "tidal" template, counters)
  | some .templatePattern =>
      let raw := firstQuasi source node
      (.ofLiteral context node raw (Text.quoteDouble raw), counters)
  | some .stringPattern =>
      let text := source.slice node.range
      (.ofLiteral context node (insideDelimiters text) text, counters)
  | some (.nativeWidget widget parts) =>
      let counted := (counters.next widget.kind.name).2
      match parts.values with
      | [] => (kept, counted)
      | first :: _ =>
          let id := widget.id (source.charOffset first.start)
          let given := betweenParentheses (source.slice parts.arguments.range)
          (.fold (identifiedCall widget.identifiedCallee.toList id given), counted)
  | some (.widgetMethod method _) =>
      let (index, counted) := counters.next method
      let id := methodWidgetId context.options.callerId method index
      (.build fun parts =>
        identifiedCall (textOf .function parts) id (betweenParentheses (textOf .arguments parts)),
        counted)
  | some (.awaitSamples _) =>
      (.build fun parts =>
        awaited (Pass.awaitStandsAlone ancestors) (weave source node.start node.stop parts),
        counters)
  | some (.label text _) => (.build (labeled source node.stop text), counters)

mutual

/-- The tree with the text that takes its place, and the counters behind it. -/
def rewrite (context : PassContext) (ancestors : List Node) :
    Node → WidgetCounters → Rewritten × WidgetCounters
  | .mk kind role range children, counters =>
      let node := Node.mk kind role range children
      match Manner.of context ancestors node counters with
      | (.fold text, counters) => (.mk node text [], counters)
      | (.build text, counters) =>
          let (parts, counters) := rewriteAll context (node :: ancestors) children counters
          (.mk node (text parts) parts, counters)

/-- Some trees with the texts that take their places, and the counters behind them. -/
def rewriteAll (context : PassContext) (ancestors : List Node) :
    List Node → WidgetCounters → List Rewritten × WidgetCounters
  | [], counters => ([], counters)
  | node :: rest, counters =>
      let (first, counters) := rewrite context ancestors node counters
      let (more, counters) := rewriteAll context ancestors rest counters
      (first :: more, counters)

end

end PatternScript
