import PatternScript.Edits
import PatternScript.Script.Node
import PatternScript.Text.Blank
import PatternScript.Transpile.Options
import PatternScript.Transpile.Outcome

/-!
Contract: the text of a transpiled program, with the value of its last statement returned.

Owns: which statements can be returned, programs without statements, and the function around a
program.
Does not own: the replacements inside the text.
-/

namespace PatternScript

open Script

namespace Ending

/-- The value of a program without statements. -/
def silence : String := "silence"

/-- The keyword before the last statement, with its blank. -/
def returnWord : List Char := "return ".toList

/-- The statement is an expression, or a label on one. -/
def isReturnable (statement : Node) : Bool :=
  match statement.kind with
  | .expressionStatement => true
  | .labeledStatement =>
      (statement.child? .body).any fun body => body.kind == .expressionStatement
  | _ => false

/-- Refuses a last statement without a value. -/
def requireReturnable (source : SourceText) (statement : Node) : Except TranspileError Unit :=
  if isReturnable statement then .ok ()
  else .error (.trailingStatement statement.kind.name (.ofByte source statement.start))

/-- The text of a range with all replacements made. -/
def write (source : SourceText) (edits : Edits) (range : ByteRange) :
    Except TranspileError (List Char) :=
  match edits.render source.chars range with
  | .ok text => .ok text
  | .error fault => .error (.unwritable fault)

/-- Comments end in a line feed, blanks alone are dropped. -/
def beforeSilence (text : List Char) : List Char :=
  if (Text.trim text).isEmpty then []
  else if text.getLast? = some '\n' then text
  else text ++ ['\n']

/-- The text of a program. -/
def body (source : SourceText) (tree : Node) (edits : Edits) (options : Options) :
    Except TranspileError (List Char) := do
  match tree.statements.getLast? with
  | none =>
      let text ← write source edits source.whole
      let word := if options.addReturn then returnWord else []
      return beforeSilence text ++ word ++ silence.toList ++ [';']
  | some last =>
      if options.addReturn then
        requireReturnable source last
        let before ← write source edits ⟨0, last.start⟩
        let after ← write source edits ⟨last.start, source.byteLength⟩
        return before ++ returnWord ++ after
      else write source edits source.whole

/-- The program inside a function that may await. -/
def wrapped (body : List Char) : List Char :=
  "(async () => \x7b\n".toList ++ body ++ "\n\x7d)()".toList

/-- The text of a program, wrapped if that is asked for. -/
def text (source : SourceText) (tree : Node) (edits : Edits) (options : Options) :
    Except TranspileError (List Char) := do
  let body ← body source tree edits options
  return if options.wrapAsync then wrapped body else body

end Ending

end PatternScript
