import PatternScript.Edits
import PatternScript.Source.SourceText
import PatternScript.Widget.Descriptor

/-!
Contract: what a transpilation ends in.

Owns: results, the causes of failure and what is said about each.
Does not own: how failures are shown to a user.
-/

namespace PatternScript

/-- A transpiled program. What was not asked for is absent. -/
structure Transpiled where
  output : String
  locations : Option (List Span) := none
  widgets : Option (List WidgetDescriptor) := none
deriving Repr

/-- A place in a program: a character offset with its line and column, counted from one. -/
structure Place where
  offset : Nat
  line : Nat
  column : Nat
deriving DecidableEq, Repr

/-- Why a program cannot be transpiled. -/
inductive TranspileError where
  /-- The text is not a program. -/
  | parse (message : String) (place : Place)
  /-- The last statement has no value to return. -/
  | trailingStatement (kind : String) (place : Place)
  /-- The replacements cannot be written. Those made for a syntax tree always can. -/
  | unwritable (fault : RenderFault)
deriving DecidableEq, Repr

namespace Place

/-- The place of a byte offset. -/
def ofByte (source : SourceText) (byte : Nat) : Place :=
  let (line, column) := source.lineColumn byte
  ⟨source.charOffset byte, line, column⟩

/-- A place in words. -/
def describe (place : Place) : String :=
  "line " ++ Nat.repr place.line ++ ", column " ++ Nat.repr place.column

end Place

namespace TranspileError

/-- The place of an error. -/
def place? : TranspileError → Option Place
  | .parse _ place => some place
  | .trailingStatement _ place => some place
  | .unwritable _ => none

/-- An error in one sentence. -/
def message : TranspileError → String
  | .parse message place => "Parse error at " ++ place.describe ++ ": " ++ message
  | .trailingStatement kind place =>
      "Unexpected " ++ kind ++ " at " ++ place.describe ++
        ": the last statement must be an expression"
  | .unwritable _ => "The program cannot be written"

/-- What is said at the place of an error. -/
def label : TranspileError → String
  | .parse message _ => message
  | .trailingStatement kind _ =>
      "expected an expression, found " ++ kind.map fun c => if c = '_' then ' ' else c
  | .unwritable _ => "The program cannot be written"

end TranspileError

end PatternScript
