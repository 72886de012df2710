import PatternScript.Notation.Leaf

/-!
Contract: languages that can stand inside a literal of a program.

A language says which parts of a literal an editor highlights, and may name the function that the
literal is handed to. The pattern notation of this library gives two languages: one for literals
that are notation as a whole, one for literals that hold notation in double quotes.

Owns: languages and the names with a built-in meaning.
Does not own: which language a tag stands for.
-/

namespace PatternScript

/-- A language for literals. -/
structure Language where
  /-- The spans to highlight in a literal text that starts at a character offset. -/
  locate : List Char → Nat → List Span
  /-- The function a literal is handed to, if it is not the tag itself. -/
  callName : Option String := none

namespace Language

/-- Literals that are pattern notation as a whole. -/
def notationWhole (callName : Option String) : Language :=
  { locate := Notation.leafSpans, callName := callName }

/-- Literals that hold pattern notation in double quotes. -/
def notationQuoted (callName : Option String) : Language :=
  { locate := Notation.quotedSpans, callName := callName }

/-- The tag of the language for literals without a tag. -/
def defaultTag : String := "minilang"

/-- The tag of the built-in language that holds notation in double quotes. -/
def tidalTag : String := "tidal"

/-- The function that literals without a tag are handed to unless their language names another. -/
def patternCall : String := "m"

end Language

end PatternScript
