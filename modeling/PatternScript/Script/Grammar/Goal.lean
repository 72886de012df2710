import PatternScript.Script.Literal
import PatternScript.Script.Pattern
import PatternScript.Script.Semicolon

/-!
Contract: the grammar of JavaScript as open recursion.

Each construct of the language is a reader that takes, for the constructs it contains, a recursor:
what to do for each goal. No reader here or in the sibling modules calls itself; the knot is tied in
one place, over a bound on the nesting depth.

Owns: the goals, lists, sequences, arguments, template literals and blocks.
Does not own: the knot.
-/

namespace PatternScript.Script.Grammar

open Reader

/-- What one construct may ask another part of the grammar for. -/
inductive Goal where
  /-- A statement. -/
  | statement
  /-- An expression without a comma at its top. -/
  | expression
  /-- An expression or a literal that is only legal as a pattern. -/
  | element
  /-- An expression without a binary or ternary operator at its top. -/
  | operand
  /-- Operands joined by operators that bind at least as tightly as the level. -/
  | binary (level : Nat)
  /-- An expression that starts with `new`. -/
  | construction
  /-- A markup element. -/
  | markup
deriving DecidableEq, Repr

/-- How to read each goal. -/
abbrev Recursor := Goal → Reader Node

/-- Items separated by commas, any of which may be absent. -/
def commaItems (item : Reader Node) : Reader (List (Option Node)) := do
  let first ← maybe item
  let more ← many do
    punct ","
    maybe item
  return first :: more

/-- The items of a list in which only the last may be absent. -/
def withoutHoles? : List (Option Node) → Option (List Node)
  | [] => some []
  | [none] => some []
  | [some last] => some [last]
  | none :: _ => none
  | some item :: rest => (withoutHoles? rest).map (item :: ·)

/-- Two or more expressions separated by commas are one sequence. -/
def joinSequence (first : Node) (more : List Node) : Reader Node :=
  if more.isEmpty then pure first
  else finish .sequenceExpression first.start (first :: more)

/-- An expression or a sequence of them. -/
def expressions (self : Recursor) : Reader Node := do
  let first ← self .expression
  let more ← many do
    punct ","
    self .expression
  joinSequence first more

/-- Expressions in parentheses. -/
def parenthesized (self : Recursor) : Reader Node := do
  let start ← position
  punct "("
  let inner ← expressions self
  punct ")"
  finish .parenthesizedExpression start [inner]

/-- Three dots and an expression. -/
def spread (self : Recursor) (goal : Goal) : Reader Node := do
  let start ← position
  punct "..."
  let spreadNode ← self goal
  finish .spreadElement start [spreadNode]

/-- The arguments of a call. -/
def argumentList (self : Recursor) : Reader Node := do
  let start ← position
  punct "("
  let items ← commaItems (spread self .expression <|> self .expression)
  punct ")"
  finish .arguments start (items.filterMap id)

/-- A block of statements. -/
def block (self : Recursor) : Reader Node := do
  let start ← position
  punct "\x7b"
  let statements ← many (self .statement)
  skipBefore
  punct "\x7d"
  finish .statementBlock start statements

/-- A dollar sign and an expression in braces. -/
def substitution (self : Recursor) : Reader Node := do
  let start := (← get).offset
  exactly ['$', '{']
  let inner ← expressions self
  punct "\x7d"
  finish .templateSubstitution start [inner]

/-- One piece of a template literal; only substitutions have nodes. -/
def templatePiece (self : Recursor) : Reader (Option Node) :=
  let isPlain := fun c => c != '`' && c != '\\' && c != '$' && c != '\x00'
  (do
    let _ ← char isPlain
    let _ ← chars isPlain
    return none) <|>
  (do
    escape
    return none) <|>
  (do return some (← substitution self)) <|>
  (do
    exactly ['$']
    ensure ((← peek) != some '{')
    return none)

/-- A template literal. -/
def template (self : Recursor) : Reader Node := do
  let start ← position
  exactly ['`']
  let pieces ← many (templatePiece self)
  exactly ['`']
  finish .templateString start (pieces.filterMap id)

end PatternScript.Script.Grammar
