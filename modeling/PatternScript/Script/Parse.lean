import PatternScript.Script.Grammar.Statement
import PatternScript.Source.SourceText

/-!
Contract: from a program text to its syntax tree.

Every text has a tree. Where the text is not a program, the tree holds a fault: a stray token, a
semicolon that had to be supplied behind a label, or, for anything else, all text from the first
token of the statement that could not be read to the last token of the program.

Owns: the knot of the grammar, the place of comments in the tree, the program node, and the choice
of the fault.
Does not own: what is said about a fault.
-/

namespace PatternScript.Script

open Reader

/-! ## The knot -/

/-- What each goal asks for, given how to read the goals inside it. -/
def Grammar.read (self : Grammar.Recursor) : Grammar.Recursor
  | .statement => Grammar.statement self
  | .expression => Grammar.expression self
  | .element => Grammar.element self
  | .operand => Grammar.operand self
  | .binary level => Grammar.binary self level
  | .construction => Grammar.construction self
  | .markup => Grammar.markupElement self

/-- The grammar down to a nesting depth; below it every reading fails. -/
def Grammar.upTo : (depth : Nat) → Grammar.Recursor
  | 0 => fun _ => failure
  | depth + 1 => Grammar.read (Grammar.upTo depth)

/-- A depth that no program text of a length exceeds: between two goals at the same place there is
at most one other goal, and each further goal is behind a character that has been read. -/
def depthBound (length : Nat) : Nat :=
  4 * (length + 1)

/-! ## Comments -/

/-- A comment stands inside a node, behind its first and before its last token. -/
def stands (node comment : Node) : Bool :=
  node.start ≤ comment.start && comment.stop ≤ node.stop

/-- Puts comments among nodes, all in source order. -/
def interleave (nodes comments : List Node) : List Node :=
  nodes.merge comments fun node comment => node.start ≤ comment.start

mutual

/-- Puts comments into a tree, each into the innermost node around it. -/
def attach (comments : List Node) : Node → Node
  | .mk kind role range children =>
      let here := comments.filter fun comment => !children.any (stands · comment)
      .mk kind role range (interleave (attachAll comments children) here)

/-- Puts comments into the trees they stand in. -/
def attachAll (comments : List Node) : List Node → List Node
  | [] => []
  | node :: rest => attach (comments.filter (stands node)) node :: attachAll comments rest

end

/-! ## Programs -/

/-- A first line for the system's program loader. -/
def hashBangLine : Reader Node := do
  skip
  let start ← position
  exactly ['#', '!']
  let _ ← chars (· != '\n')
  finish .hashBangLine start []

/-- As many statements as can be read from the start of a program, and the rest. -/
def leadingStatements (self : Grammar.Recursor) : Reader (List Node) := do
  let first ← maybe hashBangLine
  let statements ← many (self .statement)
  skipBefore
  return first.toList ++ statements

/-! ## Faults -/

/-- Tokens that can start no statement. -/
def isStray (c : Char) : Bool :=
  ")]\x7d@#\\".toList.contains c

/-- Labels with nothing behind the last of them. -/
def danglingLabel : Reader Node := do
  let labels ← many do
    let name ← word
    ensure (!Grammar.statementKeywords.contains name)
    punct ":"
  ensure (!labels.isEmpty)
  let stop := (← get).stop
  skip
  ensure (← unread).isEmpty
  return .mk (.missing ";") none ⟨stop, stop⟩ []

/-- The byte just past the last token of a text, comments and separators apart. -/
def lastStop (self : Grammar.Recursor) : Reader Nat := do
  let _ ← many do
    skip
    (do let _ ← string) <|> (do let _ ← Grammar.template self) <|>
      (do let _ ← char fun _ => true)
  return (← get).stop

/-- The fault at the start of a text that is no statement. -/
def fault (self : Grammar.Recursor) : Reader Node := do
  let start ← position
  match ← peek with
  | some c =>
      if isStray c then
        exactly [c]
        finish .error start []
      else danglingLabel <|> do
        let stop ← lastStop self
        return .mk .error none ⟨start, stop⟩ []
  | none => failure

/-- The syntax tree of a program text. -/
def parse (chars : List Char) : Node :=
  let self := Grammar.upTo (depthBound chars.length)
  let whole : Reader (List Node) := do
    let statements ← leadingStatements self
    if (← unread).isEmpty then return statements
    else return statements ++ [← fault self]
  match whole (Input.ofChars chars) with
  | some (children, input) =>
      let range : ByteRange := ⟨0, Text.byteLength chars⟩
      attach input.comments.reverse (.mk .program none range children)
  | none => .mk .error none ⟨0, Text.byteLength chars⟩ []

end PatternScript.Script
