import PatternScript.Script.Parse
import PatternScript.Text.Blank
import PatternScript.Transpile.Outcome

/-!
Contract: the syntax tree of a program, or what is wrong with its text.

Owns: the message about the first fault of a tree.
Does not own: the tree and its faults.
-/

namespace PatternScript

open Script

/-- The most characters of a program that a message shows. -/
def excerptLength : Nat := 24

/-- The first line of a text, shortened for a message. -/
def excerpt (text : List Char) : List Char :=
  let line := Text.trim (text.takeWhile (· != '\n'))
  if excerptLength < line.length then line.take excerptLength ++ "...".toList else line

/-- What is said about a node that marks a fault. -/
def faultMessage (source : SourceText) (node : Node) : String :=
  match node.kind with
  | .missing token => "missing `" ++ token ++ "`"
  | _ => "unexpected `" ++ String.ofList (excerpt (source.slice node.range)) ++ "`"

/-- A tree without faults, or the error at its first fault. -/
def requireSound (source : SourceText) (tree : Node) : Except TranspileError Node :=
  match tree.firstFault? with
  | none => .ok tree
  | some fault =>
      .error (.parse (faultMessage source fault) (.ofByte source fault.start))

/-- The syntax tree of a program text. -/
def readProgram (source : SourceText) : Except TranspileError Node :=
  requireSound source (parse source.chars)

end PatternScript
